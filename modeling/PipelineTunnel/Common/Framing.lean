import PipelineTunnel.Common.WriteBuffer

/-!
# Frames on the wire

Every call of `write` and `write_priority` hands over one frame. The peer finds the
frames in the byte stream one after the other, so a frame that has been begun has to be
finished before a byte of another one is written. `flush_unlocked` finishes the normal
frame first and sends priority frames between frames, but nothing in `write` or
`flush_unlocked` looks at `priority_read_offset`: a priority frame that the socket took
in part is interrupted by the next normal data.

## Implementation notes

The bytes of the stream carry their class, and within a class the frames are sent in the
order of the calls (`writeBuffer_exact`), so that `Framed` speaks about the frames of the
calls and not about equal bytes. A chunk may be the rest of a frame that `write` sent in
part; `Sending` therefore relates the unsent part of the queues, `Channel.pending`, to the
frames that were begun.
-/

namespace PipelineTunnel.Common

open StepSystem

/-! ## Streams of frames -/

/-- The bytes of a frame, each with the class of the frame. -/
def tagged (frame : Class × Bytes) : List (Class × UInt8) := frame.2.map (Prod.mk frame.1)

/-- The bytes that the calls of `::write` took. -/
def stream (taken : List (Class × Bytes)) : List (Class × UInt8) := taken.flatMap tagged

/-- The frames of one class. -/
def framesOf (frames : List (Class × Bytes)) (cls : Class) : List Bytes :=
  (frames.filter (·.1 = cls)).map Prod.snd

/-- In each class the frames are those of the first calls, in their order. -/
def InOrder (data : Class → List Bytes) (frames : List (Class × Bytes)) : Prop :=
  ∀ cls, framesOf frames cls <+: data cls

/-- Complete frames followed by at most one incomplete frame. -/
def Framed (data : Class → List Bytes) (bytes : List (Class × UInt8)) : Prop :=
  ∃ whole, (InOrder data whole ∧ bytes = whole.flatMap tagged) ∨
    ∃ frame part, InOrder data (whole ++ [frame]) ∧ part <+: tagged frame ∧
      bytes = whole.flatMap tagged ++ part

@[simp] theorem framesOf_nil (cls : Class) : framesOf [] cls = [] := rfl

@[simp] theorem framesOf_append (frames frames' : List (Class × Bytes)) (cls : Class) :
    framesOf (frames ++ frames') cls = framesOf frames cls ++ framesOf frames' cls := by
  simp [framesOf]

@[simp] theorem framesOf_singleton (cls cls' : Class) (frame : Bytes) :
    framesOf [(cls, frame)] cls' = if cls = cls' then [frame] else [] := by
  by_cases h : cls = cls' <;> simp [framesOf, h]

theorem tagged_append (cls : Class) (front back : Bytes) :
    tagged (cls, front ++ back) = tagged (cls, front) ++ tagged (cls, back) := by
  simp [tagged]

theorem stream_append (taken taken' : List (Class × Bytes)) :
    stream (taken ++ taken') = stream taken ++ stream taken' := by
  simp [stream]

theorem InOrder.of_append {data : Class → List Bytes} {frames frames' : List (Class × Bytes)}
    (h : InOrder data (frames ++ frames')) : InOrder data frames := by
  intro cls
  have := h cls
  rw [framesOf_append] at this
  exact (List.prefix_append _ _).trans this

/-- Where a stream of frames is cut off, at most one frame is incomplete. -/
theorem cut_flatMap {α β : Type*} (f : α → List β) (items : List α) :
    ∀ {bytes : List β}, bytes <+: items.flatMap f →
      (∃ whole rest, items = whole ++ rest ∧ bytes = whole.flatMap f) ∨
      ∃ whole item rest part, items = whole ++ item :: rest ∧ part <+: f item ∧
        bytes = whole.flatMap f ++ part := by
  induction items with
  | nil =>
      intro bytes h
      exact .inl ⟨[], [], rfl, by simpa using h⟩
  | cons item items ih =>
      intro bytes h
      rw [List.flatMap_cons] at h
      obtain ⟨end', h⟩ := h
      rcases List.append_eq_append_iff.mp h with ⟨last, hpart, -⟩ | ⟨more, rfl, hmore⟩
      · exact .inr ⟨[], item, items, bytes, rfl, ⟨last, hpart.symm⟩, rfl⟩
      · rcases ih ⟨end', hmore.symm⟩ with ⟨whole, rest, rfl, rfl⟩ |
          ⟨whole, next, rest, part, rfl, hpart, rfl⟩
        · exact .inl ⟨item :: whole, rest, rfl, rfl⟩
        · exact .inr ⟨item :: whole, next, rest, part, rfl, hpart, by simp⟩

theorem framed_of_prefix {data : Class → List Bytes} {frames : List (Class × Bytes)}
    {bytes : List (Class × UInt8)} (horder : InOrder data frames)
    (h : bytes <+: frames.flatMap tagged) : Framed data bytes := by
  rcases cut_flatMap tagged frames h with
    ⟨whole, rest, rfl, rfl⟩ | ⟨whole, frame, rest, part, rfl, hpart, rfl⟩
  · exact ⟨whole, .inl ⟨horder.of_append, rfl⟩⟩
  · refine ⟨whole, .inr ⟨frame, part, ?_, hpart, rfl⟩⟩
    rw [List.append_cons] at horder
    exact horder.of_append

theorem Framed.exists_prefix {data : Class → List Bytes} {bytes : List (Class × UInt8)}
    (h : Framed data bytes) :
    ∃ frames, InOrder data frames ∧ bytes <+: frames.flatMap tagged := by
  obtain ⟨whole, ⟨horder, rfl⟩ | ⟨frame, part, horder, hpart, rfl⟩⟩ := h
  · exact ⟨whole, horder, List.prefix_rfl⟩
  · refine ⟨whole ++ [frame], horder, ?_⟩
    rw [List.flatMap_append, List.flatMap_singleton]
    exact (List.prefix_append_right_inj _).mpr hpart

/-- The first frame on the wire is the first frame of its class. -/
theorem Framed.first {data : Class → List Bytes} {byte : Class × UInt8}
    {bytes : List (Class × UInt8)} (h : Framed data (byte :: bytes))
    (hfilled : ∀ cls, ∀ frame ∈ data cls, frame ≠ []) :
    ∃ frame ∈ (data byte.1).head?, ∃ more, byte :: bytes <+: tagged (byte.1, frame) ++ more := by
  obtain ⟨frames, horder, hbytes⟩ := h.exists_prefix
  cases frames with
  | nil => exact absurd (List.prefix_nil.mp hbytes) (List.cons_ne_nil _ _)
  | cons first frames =>
      obtain ⟨cls, frame⟩ := first
      have hhead : frame ∈ (data cls).head? := by
        obtain ⟨later, hlater⟩ := horder cls
        rw [← hlater]
        simp [framesOf]
      have hne := hfilled cls frame (List.mem_of_mem_head? hhead)
      obtain ⟨b, frame', rfl⟩ := List.exists_cons_of_ne_nil hne
      rw [List.flatMap_cons] at hbytes
      obtain rfl : byte = (cls, b) := by
        simpa [tagged] using (List.cons_prefix_cons.mp hbytes).1
      exact ⟨_, hhead, _, hbytes⟩

/-! ## Frames and queues -/

/-- A queue with the part of its front chunk that was written taken off. -/
def pendingOf : List Bytes → Nat → List Bytes
  | [], _ => []
  | front :: rest, offset => front.drop offset :: rest

def Channel.pending (s : Channel) : Class → List Bytes
  | .normal => pendingOf s.buf.chunks s.buf.readOffset
  | .priority => pendingOf s.buf.priorityChunks s.buf.priorityReadOffset

/-- The frames begun so far have been sent up to `under`, which is empty or holds the rest
of one frame; `under` and the frames not begun are in the queues. -/
def Sending (s : Channel) (data : Class → List Bytes) (under : List (Class × Bytes)) : Prop :=
  ∃ (frames : List (Class × Bytes)) (later : Class → List Bytes),
    stream s.taken ++ under.flatMap tagged = frames.flatMap tagged ∧
    ∀ cls, data cls = framesOf frames cls ++ later cls ∧
      s.pending cls = framesOf under cls ++ later cls

section Sending

variable {s s' : Channel} {data : Class → List Bytes} {cls : Class} {rest : Bytes}

theorem Sending.framed {under : List (Class × Bytes)} (h : Sending s data under) (k : Nat) :
    Framed data (stream (s.taken.take k)) := by
  obtain ⟨frames, later, hstream, hqueues⟩ := h
  have horder : InOrder data frames := by
    intro cls
    rw [(hqueues cls).1]
    exact List.prefix_append _ _
  have hcut : stream (s.taken.take k) <+: stream s.taken :=
    ⟨stream (s.taken.drop k), by rw [← stream_append, List.take_append_drop]⟩
  exact framed_of_prefix horder (hcut.trans (hstream ▸ List.prefix_append _ _))

/-- When the queue of one class changes, the other is the one to compare. -/
theorem pending_of_normal (h : s'.pending .priority = s.pending .priority) :
    ∀ cls ≠ .normal, s'.pending cls = s.pending cls := by
  intro cls hcls
  cases cls with
  | normal => exact absurd rfl hcls
  | priority => exact h

theorem pending_of_priority (h : s'.pending .normal = s.pending .normal) :
    ∀ cls ≠ .priority, s'.pending cls = s.pending cls := by
  intro cls hcls
  cases cls with
  | normal => exact h
  | priority => exact absurd rfl hcls

/-- The next frame of a class is begun. -/
theorem Sending.start (h : Sending s data []) {more : List Bytes}
    (hnext : s.pending cls = rest :: more) : Sending s data [(cls, rest)] := by
  obtain ⟨frames, later, hstream, hqueues⟩ := h
  refine ⟨frames ++ [(cls, rest)], Function.update later cls more, ?_, ?_⟩
  · rw [List.flatMap_append, ← hstream]
    simp
  · intro cls'
    obtain ⟨hdata, hpending⟩ := hqueues cls'
    by_cases hcls : cls = cls'
    · subst hcls
      simp_all
    · simp [hcls, Function.update_of_ne (Ne.symm hcls), hdata, hpending]

/-- The socket takes `n` bytes of the frame under way. -/
theorem Sending.take (h : Sending s data [(cls, rest)]) {n : Nat} {more : List Bytes}
    (hnext : s.pending cls = rest :: more)
    (htaken : s'.taken = s.taken ++ [(cls, rest.take n)])
    (hsame : s'.pending cls = if n < rest.length then rest.drop n :: more else more)
    (hother : ∀ cls' ≠ cls, s'.pending cls' = s.pending cls') :
    Sending s' data (if n < rest.length then [(cls, rest.drop n)] else []) := by
  obtain ⟨frames, later, hstream, hqueues⟩ := h
  refine ⟨frames, later, ?_, ?_⟩
  · rw [← hstream, htaken, stream_append, List.append_assoc]
    congr 1
    split_ifs with hlt
    · simp only [stream, List.flatMap_singleton]
      rw [← tagged_append, List.take_append_drop]
    · rw [List.take_of_length_le (by omega)]
      simp [stream]
  · intro cls'
    refine ⟨(hqueues cls').1, ?_⟩
    by_cases hcls : cls' = cls
    · subst hcls
      have hmore : later cls' = more := by
        have := (hqueues cls').2
        rw [hnext] at this
        simpa using this.symm
      rw [hsame, hmore]
      split_ifs <;> simp
    · have hne : cls ≠ cls' := fun heq => hcls heq.symm
      rw [hother cls' hcls, (hqueues cls').2]
      split_ifs <;> simp [hne]

/-- A frame joins the end of its queue. -/
theorem Sending.append {under : List (Class × Bytes)} (h : Sending s data under) {frame : Bytes}
    (htaken : s'.taken = s.taken) (hsame : s'.pending cls = s.pending cls ++ [frame])
    (hother : ∀ cls' ≠ cls, s'.pending cls' = s.pending cls') :
    Sending s' (Function.update data cls (data cls ++ [frame])) under := by
  obtain ⟨frames, later, hstream, hqueues⟩ := h
  refine ⟨frames, Function.update later cls (later cls ++ [frame]), by rw [htaken, hstream], ?_⟩
  intro cls'
  obtain ⟨hdata, hpending⟩ := hqueues cls'
  by_cases hcls : cls' = cls
  · subst hcls
    simp [hsame, hdata, hpending]
  · simp [Function.update_of_ne hcls, hother cls' hcls, hdata, hpending]

end Sending

theorem pendingOf_concat {chunks : List Bytes} {offset : Nat} (h : Queued chunks offset)
    (frame : Bytes) :
    pendingOf (chunks ++ [frame]) offset = pendingOf chunks offset ++ [frame] := by
  cases hc : chunks with
  | nil => simp [pendingOf, h.empty hc]
  | cons front rest => rfl

theorem pendingOf_advance {front : Bytes} {rest : List Bytes} {offset : Nat}
    (h : Queued (front :: rest) offset) (n : Nat) :
    pendingOf (advance (front :: rest) offset n).1 (advance (front :: rest) offset n).2 =
      if n < (front.drop offset).length then (front.drop offset).drop n :: rest else rest := by
  have hin := h.inside front rfl
  rw [advance, List.length_drop]
  by_cases hlt : offset + n ≥ front.length
  · rw [if_pos hlt, if_neg (by omega)]
    cases rest <;> rfl
  · rw [if_neg hlt, if_pos (by omega), List.drop_drop]
    rfl

/-! ## The calls -/

/-- No frame is under way, or a priority frame that the socket took in part. -/
def BetweenNormal (s : Channel) (data : Class → List Bytes) : Prop :=
  Sending s data [] ∧ s.buf.priorityReadOffset = 0 ∨
    ∃ rest, Sending s data [(.priority, rest)] ∧ 0 < s.buf.priorityReadOffset

/-- A normal frame is under way, which may be not yet begun. -/
def InNormal (s : Channel) (data : Class → List Bytes) : Prop :=
  ∃ rest, Sending s data [(.normal, rest)] ∧ s.buf.priorityReadOffset = 0

/-- At most one frame is under way. -/
def Steady (s : Channel) (data : Class → List Bytes) : Prop :=
  BetweenNormal s data ∨ InNormal s data

/-- No priority frame is under way, or the socket has no room for the next `len` bytes. -/
def Clear (sock : Socket) (s : Channel) (len : Nat) : Prop :=
  s.buf.priorityReadOffset = 0 ∨ sock.write s.calls len = .again

/-- The socket has no errors other than `EAGAIN`. -/
def Socket.NoErrors (sock : Socket) : Prop := ∀ call len, sock.write call len ≠ .error

instance (sock : Socket) (s : Channel) (len : Nat) : Decidable (Clear sock s len) :=
  inferInstanceAs (Decidable (_ ∨ _))

theorem Clear.offset {sock : Socket} {s : Channel} {len n : Nat} (h : Clear sock s len)
    (hwrite : sock.write s.calls len = .wrote n) : s.buf.priorityReadOffset = 0 := by
  rcases h with h | h
  · exact h
  · rw [hwrite] at h
    cases h

section Calls

variable {s s' : Channel} {data : Class → List Bytes} {N P : Bytes}

theorem BetweenNormal.idle (h : BetweenNormal s data) (hoffset : s.buf.priorityReadOffset = 0) :
    Sending s data [] := by
  rcases h with ⟨h, -⟩ | ⟨rest, -, hpos⟩
  · exact h
  · omega

/-- The rest of a frame under way is at the front of its queue. -/
theorem Sending.pending_cons {cls : Class} {rest : Bytes} (h : Sending s data [(cls, rest)]) :
    ∃ more, s.pending cls = rest :: more := by
  obtain ⟨frames, later, -, hqueues⟩ := h
  exact ⟨later cls, by rw [(hqueues cls).2]; simp⟩

theorem BetweenNormal.done (h : BetweenNormal s data) (hempty : s.buf.priorityChunks = []) :
    Sending s data [] ∧ s.buf.priorityReadOffset = 0 := by
  rcases h with h | ⟨rest, h, -⟩
  · exact h
  · obtain ⟨more, hmore⟩ := h.pending_cons
    simp [Channel.pending, hempty, pendingOf] at hmore

theorem Steady.between (h : Steady s data) (hempty : s.buf.chunks = []) : BetweenNormal s data := by
  rcases h with h | ⟨rest, h, -⟩
  · exact h
  · obtain ⟨more, hmore⟩ := h.pending_cons
    simp [Channel.pending, hempty, pendingOf] at hmore

/-- With no priority frame under way the front of the normal queue may be sent. -/
theorem Steady.inNormal (h : Steady s data) (hoffset : s.buf.priorityReadOffset = 0)
    {rest : Bytes} {more : List Bytes} (hnext : s.pending .normal = rest :: more) :
    Sending s data [(.normal, rest)] := by
  rcases h with h | ⟨rest', h, -⟩
  · exact (h.idle hoffset).start hnext
  · obtain ⟨more', hmore⟩ := h.pending_cons
    obtain ⟨rfl, -⟩ := List.cons.inj (hnext.symm.trans hmore)
    exact h

/-- What a call without an effect on the stream and the queues keeps. -/
theorem Sending.congr {under : List (Class × Bytes)} (h : Sending s data under)
    (htaken : s'.taken = s.taken) (hbuf : s'.buf = s.buf) : Sending s' data under := by
  obtain ⟨frames, later, hstream, hqueues⟩ := h
  refine ⟨frames, later, by rw [htaken, hstream], fun cls => ?_⟩
  have hpending : s'.pending cls = s.pending cls := by cases cls <;> simp [Channel.pending, hbuf]
  rw [hpending]
  exact hqueues cls

theorem BetweenNormal.noRoom (h : BetweenNormal s data) : BetweenNormal s.noRoom data := by
  rcases h with ⟨h, hoffset⟩ | ⟨rest, h, hoffset⟩
  · exact .inl ⟨h.congr rfl rfl, hoffset⟩
  · exact .inr ⟨rest, h.congr rfl rfl, hoffset⟩

theorem Steady.noRoom (h : Steady s data) : Steady s.noRoom data := by
  rcases h with h | ⟨rest, h, hoffset⟩
  · exact .inl h.noRoom
  · exact .inr ⟨rest, h.congr rfl rfl, hoffset⟩

theorem BetweenNormal.priorityTaken (h : BetweenNormal s data) {msg : Bytes} {rest : List Bytes}
    {n : Nat} (hchunks : s.buf.priorityChunks = msg :: rest)
    (hqueue : Queued (msg :: rest) s.buf.priorityReadOffset) (hpos : 1 ≤ n) :
    BetweenNormal (priorityTaken s msg rest n) data := by
  have hnext : s.pending .priority = msg.drop s.buf.priorityReadOffset :: rest := by
    simp [Channel.pending, hchunks, pendingOf]
  have hunder : Sending s data [(.priority, msg.drop s.buf.priorityReadOffset)] := by
    rcases h with ⟨h, -⟩ | ⟨rest', h, -⟩
    · exact h.start hnext
    · obtain ⟨more, hmore⟩ := h.pending_cons
      obtain ⟨rfl, -⟩ := List.cons.inj (hnext.symm.trans hmore)
      exact h
  have hin := hqueue.inside msg rfl
  have hother : ∀ cls ≠ .priority,
      (Common.priorityTaken s msg rest n).pending cls = s.pending cls := pending_of_priority rfl
  have htaken : (Common.priorityTaken s msg rest n).taken =
      s.taken ++ [(.priority, (msg.drop s.buf.priorityReadOffset).take n)] := rfl
  have htake := hunder.take hnext htaken (pendingOf_advance hqueue n) hother
  have hoffset : (Common.priorityTaken s msg rest n).buf.priorityReadOffset =
      (advance (msg :: rest) s.buf.priorityReadOffset n).2 := rfl
  rw [List.length_drop] at htake
  by_cases hlt : n < msg.length - s.buf.priorityReadOffset
  · rw [if_pos hlt] at htake
    refine .inr ⟨_, htake, ?_⟩
    rw [hoffset, advance, if_neg (by omega)]
    dsimp only
    omega
  · rw [if_neg hlt] at htake
    refine .inl ⟨htake, ?_⟩
    rw [hoffset, advance, if_pos (by omega)]

/-- The loop over the priority queue finishes the priority frame under way first. -/
theorem flushPriorityUnlocked_between {sock : Socket} (hsock : sock.NoErrors) (fuel : Nat) :
    ∀ {s : Channel} {ok : Bool}, Exact s N P → BetweenNormal s data →
    flushPriorityUnlocked sock fuel s = some (s', ok) →
    BetweenNormal s' data ∧ s'.buf.chunks = s.buf.chunks ∧
      (ok = true → s'.buf.priorityChunks = []) := by
  induction fuel with
  | zero => intro s ok _ _ hrun; cases hrun
  | succ fuel ih =>
      intro s ok hexact h hrun
      rw [flushPriorityUnlocked] at hrun
      cases hchunks : s.buf.priorityChunks with
      | nil =>
          rw [hchunks] at hrun
          obtain ⟨rfl, rfl⟩ := Prod.mk.inj (Option.some.inj hrun)
          exact ⟨h, rfl, fun _ => hchunks⟩
      | cons msg rest =>
          have hqueue := hexact.priorityQueue
          rw [hchunks] at hqueue hrun
          dsimp only at hrun
          cases hwrite : sock.write s.calls (msg.drop s.buf.priorityReadOffset).length with
          | wrote n =>
              obtain ⟨hpos, hle⟩ := sock.valid _ _ _ hqueue.rest_pos hwrite
              simp only [hwrite, gt_iff_lt, if_pos (show 0 < n from hpos)] at hrun
              obtain ⟨hbetween, hkeep, hdone⟩ := ih (hexact.priorityTaken hchunks hle).1
                (h.priorityTaken hchunks hqueue hpos) hrun
              exact ⟨hbetween, hkeep, hdone⟩
          | again =>
              simp only [hwrite] at hrun
              obtain ⟨rfl, rfl⟩ := Prod.mk.inj (Option.some.inj hrun)
              refine ⟨h.noRoom, rfl, fun hdone => ?_⟩
              cases hdone
          | error => exact absurd hwrite (hsock _ _)

/-- The socket takes `n` bytes of the front of the normal queue. -/
theorem Steady.normalTaken (h : Steady s data) (hoffset : s.buf.priorityReadOffset = 0)
    {front : Bytes} {rest : List Bytes} (n : Nat) (hchunks : s.buf.chunks = front :: rest)
    (hqueue : Queued (front :: rest) s.buf.readOffset) :
    if s.buf.readOffset + n ≥ front.length then BetweenNormal (normalTaken s front rest n) data
    else InNormal (normalTaken s front rest n) data := by
  have hnext : s.pending .normal = front.drop s.buf.readOffset :: rest := by
    simp [Channel.pending, hchunks, pendingOf]
  have hin := hqueue.inside front rfl
  have hother : ∀ cls ≠ .normal,
      (Common.normalTaken s front rest n).pending cls = s.pending cls := pending_of_normal rfl
  have htaken : (Common.normalTaken s front rest n).taken =
      s.taken ++ [(.normal, (front.drop s.buf.readOffset).take n)] := rfl
  have htake := (h.inNormal hoffset hnext).take hnext htaken (pendingOf_advance hqueue n) hother
  rw [List.length_drop] at htake
  split_ifs with hend
  · rw [if_neg (by omega)] at htake
    exact .inl ⟨htake, hoffset⟩
  · rw [if_pos (by omega)] at htake
    exact ⟨_, htake, hoffset⟩

/-- The priority data goes between the frames, and a normal frame is begun only where no
priority frame is under way. -/
theorem flushUnlockedLoop_steady {sock : Socket} (hsock : sock.NoErrors) {bound : Nat}
    (fuel : Nat) :
    ∀ {s : Channel} {ok : Bool}, Exact s N P → Steady s data →
    (∀ front ∈ s.buf.chunks.head?, Clear sock s (front.drop s.buf.readOffset).length) →
    s.buf.priority.length < bound →
    flushUnlockedLoop sock bound fuel s = some (s', ok) → Steady s' data := by
  induction fuel with
  | zero => intro s ok _ _ _ _ hrun; cases hrun
  | succ fuel ih =>
      intro s ok hexact h hclear hbound hrun
      rw [flushUnlockedLoop] at hrun
      cases hchunks : s.buf.chunks with
      | nil =>
          rw [hchunks] at hrun
          exact .inl (flushPriorityUnlocked_between hsock bound hexact (h.between hchunks) hrun).1
      | cons front rest =>
          have hqueue := hexact.normalQueue
          have hfront := hclear front (by rw [hchunks]; rfl)
          rw [hchunks] at hqueue hrun
          dsimp only at hrun
          cases hwrite : sock.write s.calls (front.drop s.buf.readOffset).length with
          | wrote n =>
              obtain ⟨hpos, hle⟩ := sock.valid _ _ _ hqueue.rest_pos hwrite
              have hoffset := hfront.offset hwrite
              have htaken := h.normalTaken hoffset n hchunks hqueue
              have hexact' := (hexact.normalTaken hchunks hle).1
              simp only [hwrite, gt_iff_lt, if_pos (show 0 < n from hpos)] at hrun
              by_cases hframe : s.buf.readOffset + n ≥ front.length
              · simp only [if_pos hframe] at hrun htaken
                obtain ⟨s₁, ok₁, hrun₁, hexact₁, -, -, hshrink₁, -⟩ :=
                  flushPriorityUnlocked_spec sock bound hexact' hbound
                obtain ⟨hbetween, -, hdone⟩ :=
                  flushPriorityUnlocked_between hsock bound hexact' htaken hrun₁
                rw [hrun₁] at hrun
                cases ok₁ with
                | false =>
                    obtain ⟨rfl, -⟩ := Prod.mk.inj (Option.some.inj hrun)
                    exact .inl hbetween
                | true =>
                    have hidle := hbetween.done (hdone rfl)
                    exact ih hexact₁ (.inl hbetween) (fun _ _ => .inl hidle.2)
                      (Nat.lt_of_le_of_lt hshrink₁ hbound) hrun
              · simp only [if_neg hframe] at hrun htaken
                exact ih hexact' (.inr htaken) (fun _ _ => .inl hoffset) hbound hrun
          | again =>
              simp only [hwrite] at hrun
              obtain ⟨rfl, -⟩ := Prod.mk.inj (Option.some.inj hrun)
              exact h.noRoom
          | error => exact absurd hwrite (hsock _ _)

theorem flushUnlocked_steady {sock : Socket} (hsock : sock.NoErrors) {ok : Bool}
    (hexact : Exact s N P) (h : Steady s data)
    (hclear : ∀ front ∈ s.buf.chunks.head?, Clear sock s (front.drop s.buf.readOffset).length)
    (hrun : flushUnlocked sock s = some (s', ok)) : Steady s' data :=
  flushUnlockedLoop_steady hsock _ hexact h hclear (Nat.lt_succ_self _) hrun

theorem Steady.append (h : Steady s data) {cls : Class} {frame : Bytes}
    (htaken : s'.taken = s.taken) (hsame : s'.pending cls = s.pending cls ++ [frame])
    (hother : ∀ cls' ≠ cls, s'.pending cls' = s.pending cls')
    (hoffset : s'.buf.priorityReadOffset = s.buf.priorityReadOffset) :
    Steady s' (Function.update data cls (data cls ++ [frame])) := by
  rcases h with (⟨h, h0⟩ | ⟨rest, h, h0⟩) | ⟨rest, h, h0⟩
  · exact .inl (.inl ⟨h.append htaken hsame hother, hoffset.trans h0⟩)
  · exact .inl (.inr ⟨rest, h.append htaken hsame hother, hoffset ▸ h0⟩)
  · exact .inr ⟨rest, h.append htaken hsame hother, hoffset.trans h0⟩

/-- Data that waits in the normal queue. -/
theorem Steady.queue (h : Steady s data) (hqueue : Queued s.buf.chunks s.buf.readOffset)
    (frame : Bytes) : Steady { s with buf := s.buf.append frame }
      (Function.update data .normal (data .normal ++ [frame])) :=
  h.append rfl (pendingOf_concat hqueue frame) (pending_of_normal rfl) rfl

/-- A frame that goes straight to the socket, which takes `n` of its bytes. -/
theorem Sending.direct (h : Sending s data []) (hempty : s.buf.chunks = [])
    (hqueue : Queued s.buf.chunks s.buf.readOffset) {frame : Bytes} {n : Nat}
    (htaken : s'.taken = s.taken ++ [(.normal, frame.take n)])
    (hsame : s'.pending .normal = if n < frame.length then [frame.drop n] else [])
    (hother : s'.pending .priority = s.pending .priority) :
    Sending s' (Function.update data .normal (data .normal ++ [frame]))
      (if n < frame.length then [(.normal, frame.drop n)] else []) := by
  have hqueued : Sending { s with buf := s.buf.append frame }
      (Function.update data .normal (data .normal ++ [frame])) [] :=
    h.append rfl (pendingOf_concat hqueue frame) (pending_of_normal rfl)
  have hnext : Channel.pending { s with buf := s.buf.append frame } .normal = [frame] := by
    simp [Channel.pending, WriteBuffer.append, hempty, hqueue.empty hempty, pendingOf]
  exact (hqueued.start hnext).take hnext htaken hsame (pending_of_normal hother)

theorem writeDirect_steady {sock : Socket} (hsock : sock.NoErrors) (hexact : Exact s N P)
    (h : Steady s data) (hempty : s.buf.chunks = []) {frame : Bytes}
    (hclear : Clear sock s frame.length) :
    ((writeDirect sock s frame).2 = 0 ∨ (writeDirect sock s frame).2 = 1) ∧
      Steady (writeDirect sock s frame).1
        (Function.update data .normal (data .normal ++ [frame])) := by
  have hqueue := hexact.normalQueue
  have hzero := hqueue.empty hempty
  rw [writeDirect]
  cases hwrite : sock.write s.calls frame.length with
  | again => exact ⟨.inr rfl, h.noRoom.queue hqueue frame⟩
  | error => exact absurd hwrite (hsock _ _)
  | wrote n =>
      have hoffset := hclear.offset hwrite
      have hidle := (h.between hempty).idle hoffset
      dsimp only
      by_cases hlt : n < frame.length
      · have hpending : Channel.pending { s.took .normal (frame.take n) with
            buf := s.buf.append (frame.drop n) } .normal =
              if n < frame.length then [frame.drop n] else [] := by
          simp [Channel.pending, WriteBuffer.append, hempty, hzero, pendingOf, hlt]
        have hsent := hidle.direct hempty hqueue (by rfl) hpending rfl
        rw [if_pos hlt] at hsent ⊢
        exact ⟨.inr rfl, .inr ⟨_, hsent, hoffset⟩⟩
      · have hpending : (s.took .normal frame).pending .normal =
            if n < frame.length then [frame.drop n] else [] := by
          simp [Channel.pending, Channel.took, hempty, pendingOf, hlt]
        have htaken : (s.took .normal frame).taken = s.taken ++ [(.normal, frame.take n)] := by
          rw [List.take_of_length_le (by omega)]
          rfl
        have hsent := hidle.direct hempty hqueue htaken hpending rfl
        rw [if_neg hlt] at hsent ⊢
        exact ⟨.inl rfl, .inl (.inl ⟨hsent, hoffset⟩)⟩

end Calls

/-! ## Runs -/

/-- No normal data is sent while a priority frame is under way: where a call comes to a
`::write` for normal data, no priority frame is under way or the socket has no room. For
`flush_unlocked` the first `::write` matters, for `write` also the one behind it. -/
def Op.Clean (sock : Socket) (s : Channel) : Op → Prop
  | .writePriority _ => True
  | .flush => ∀ front ∈ s.buf.chunks.head?, Clear sock s (front.drop s.buf.readOffset).length
  | .write data =>
      if s.buf.chunks = [] then Clear sock s data.length
      else
        (∀ front ∈ s.buf.chunks.head?, Clear sock s (front.drop s.buf.readOffset).length) ∧
        ∀ r ∈ flushUnlocked sock s, r.1.buf.chunks = [] → Clear sock r.1 data.length

instance (sock : Socket) (s : Channel) : ∀ o : Op, Decidable (o.Clean sock s)
  | .writePriority _ => isTrue trivial
  | .flush => inferInstanceAs (Decidable (∀ front ∈ s.buf.chunks.head?, _))
  | .write _ => inferInstanceAs (Decidable (if s.buf.chunks = [] then _ else _))

/-- The frames of the calls. -/
def Usage.data (u : Usage) : Class → List Bytes
  | .normal => u.written
  | .priority => u.queued

/-- The state kept by clean calls. -/
structure Usage.Whole (u : Usage) : Prop where
  exact : u.Exact
  steady : Steady u.channel u.data

theorem Usage.Whole.write {sock : Socket} (hsock : sock.NoErrors) {u : Usage} (h : u.Whole)
    {frame : Bytes} (hclean : Op.Clean sock u.channel (.write frame))
    {s : Channel} {r : Int} (hrun : Common.write sock u.channel frame = some (s, r)) :
    (r = 0 ∨ r = 1) ∧ Steady s (Function.update u.data .normal (u.data .normal ++ [frame])) := by
  rw [Common.write] at hrun
  rw [Op.Clean] at hclean
  by_cases hempty : u.channel.buf.chunks = []
  · rw [if_neg (not_not.mpr hempty)] at hrun
    rw [if_pos hempty] at hclean
    have hresult := writeDirect_steady hsock h.exact h.steady hempty hclean
    rw [Option.some.inj hrun] at hresult
    exact hresult
  · rw [if_neg hempty] at hclean
    obtain ⟨s₁, ok, hrun₁, hexact₁, -⟩ := flushUnlocked_spec sock h.exact
    have hsteady₁ := flushUnlocked_steady hsock h.exact h.steady hclean.1 hrun₁
    rw [if_pos hempty, hrun₁] at hrun
    dsimp only at hrun
    by_cases hempty₁ : s₁.buf.chunks = []
    · rw [if_neg (not_not.mpr hempty₁)] at hrun
      have hresult := writeDirect_steady hsock hexact₁ hsteady₁ hempty₁
        (hclean.2 _ hrun₁ hempty₁)
      rw [Option.some.inj hrun] at hresult
      exact hresult
    · rw [if_pos hempty₁] at hrun
      obtain ⟨rfl, rfl⟩ := Prod.mk.inj (Option.some.inj hrun)
      exact ⟨.inr rfl, hsteady₁.queue hexact₁.normalQueue frame⟩

theorem Usage.Whole.step {sock : Socket} (hsock : sock.NoErrors) {u : Usage} (h : u.Whole)
    {o : Op} (ho : o.NonEmpty) (hclean : o.Clean sock u.channel) :
    ∃ u', u.step sock o = some u' ∧ u'.Whole := by
  obtain ⟨u', hstep, hexact⟩ := @Usage.Exact.step sock _ h.exact _ ho
  refine ⟨u', hstep, hexact, ?_⟩
  cases o with
  | write frame =>
      obtain ⟨s, r, hrun, -⟩ := write_spec sock h.exact ho
      obtain ⟨hr, hsteady⟩ := h.write hsock hclean hrun
      simp only [Usage.step, hrun, if_pos hr] at hstep
      obtain rfl := Option.some.inj hstep
      have hdata : Usage.data { u with channel := s, written := u.written ++ [frame] } =
          Function.update u.data .normal (u.data .normal ++ [frame]) := by
        funext cls
        cases cls <;> rfl
      rw [hdata]
      exact hsteady
  | writePriority frame =>
      obtain rfl := Option.some.inj hstep
      have hdata : Usage.data { u with
            channel := Common.writePriority u.channel frame, queued := u.queued ++ [frame] } =
          Function.update u.data .priority (u.data .priority ++ [frame]) := by
        funext cls
        cases cls <;> rfl
      rw [hdata]
      exact h.steady.append rfl (pendingOf_concat h.exact.priorityQueue frame)
        (pending_of_priority rfl) rfl
  | flush =>
      obtain ⟨s, ok, hrun, -⟩ := flushUnlocked_spec sock h.exact
      have hsteady := flushUnlocked_steady hsock h.exact h.steady hclean hrun
      rw [Usage.step, Common.flush, hrun] at hstep
      obtain rfl := Option.some.inj hstep
      exact hsteady

/-- As long as no normal data is sent while a priority frame is under way, the bytes that
the socket took are at every moment complete frames followed by at most one incomplete
frame; `k` counts the calls of `::write` that took bytes. -/
theorem frames_notInterleaved (sock : Socket) (hsock : sock.NoErrors) {ops : List Op}
    (hops : ∀ o ∈ ops, o.NonEmpty)
    (hclean : Meets (Usage.step sock) (fun u o => o.Clean sock u.channel) {} ops) :
    ∃ u, run (Usage.step sock) {} ops = some u ∧
      ∀ k, Framed u.data (stream (u.channel.taken.take k)) := by
  have hstart : Usage.Whole {} := by
    refine ⟨⟨.nil, .nil, rfl, rfl, rfl⟩, .inl (.inl ⟨⟨[], fun _ => [], rfl, ?_⟩, rfl⟩)⟩
    intro cls
    cases cls <;> exact ⟨rfl, rfl⟩
  obtain ⟨u, hrun, hwhole⟩ := @exists_run_of_meets _ _ _ _ (fun _ u => u.Whole)
    (fun _ u o h ho => h.step hsock ho.1 ho.2) [] _ _ hstart (hclean.and_mem hops)
  refine ⟨u, hrun, fun k => ?_⟩
  rcases hwhole.steady with (⟨h, -⟩ | ⟨rest, h, -⟩) | ⟨rest, h, -⟩
  · exact h.framed k
  · exact h.framed k
  · exact h.framed k

theorem stutter_noErrors : stutter.NoErrors := by
  intro call len
  simp only [stutter]
  split_ifs <;> nofun

/-- The socket stops inside a priority frame, which is finished before the next frame. -/
theorem frames_notInterleaved_stutter :
    ∃ u, run (Usage.step stutter) {} [.write [1, 2, 3], .writePriority [8, 9], .flush, .flush,
        .flush, .write [4]] = some u ∧
      (∀ k, Framed u.data (stream (u.channel.taken.take k))) ∧
      u.channel.taken = [(.normal, [1]), (.normal, [2, 3]), (.priority, [8]), (.priority, [9]),
        (.normal, [4])] := by
  obtain ⟨u, hrun, hframed⟩ := @frames_notInterleaved stutter stutter_noErrors
    [.write [1, 2, 3], .writePriority [8, 9], .flush, .flush, .flush, .write [4]] (by decide)
    (by decide)
  have hend : ∀ u ∈ run (Usage.step stutter) {} [.write [1, 2, 3], .writePriority [8, 9], .flush,
      .flush, .flush, .write [4]],
      u.channel.taken = [(.normal, [1]), (.normal, [2, 3]), (.priority, [8]), (.priority, [9]),
        (.normal, [4])] := by decide
  exact ⟨u, hrun, hframed, hend u hrun⟩

/-- The socket takes one byte of a priority frame; the next `write` finds the normal queue
empty and puts its frame between the two bytes of the priority frame. -/
theorem frames_interleaved :
    ¬ ∀ sock : Socket, sock.NoErrors → ∀ ops : List Op, (∀ o ∈ ops, o.NonEmpty) →
      ∀ u, run (Usage.step sock) {} ops = some u → Framed u.data (stream u.channel.taken) := by
  intro hall
  have hend : ∃ u,
      run (Usage.step stutter) {} [.writePriority [1, 2], .flush, .write [9]] = some u ∧
      u.written = [[9]] ∧ u.queued = [[1, 2]] ∧
      stream u.channel.taken = [(.priority, 1), (.normal, 9)] := by
    refine ⟨_, rfl, ?_⟩
    decide
  obtain ⟨u, hrun, hwritten, hqueued, hstream⟩ := hend
  have hframed := hall stutter stutter_noErrors _ (by decide) u hrun
  rw [hstream] at hframed
  obtain ⟨frame, hframe, more, hbytes⟩ := hframed.first (by
    intro cls frame hmem
    cases cls with
    | normal => simp [Usage.data, hwritten] at hmem; simp [hmem]
    | priority => simp [Usage.data, hqueued] at hmem; simp [hmem])
  obtain rfl : [1, 2] = frame := by simpa [Usage.data, hqueued] using hframe
  simp [tagged] at hbytes

end PipelineTunnel.Common
