import PipelineTunnel.Common.WriteBuffer

/-!
# Whether a flush comes to an end

The loops of `flush_unlocked` and `flush_priority_unlocked` take a chunk off its queue only
behind a `::write` that has written something. An empty chunk is never taken off: `::write`
returns 0 for it, round after round. `write` keeps what it is given when data is queued
already, and its callers may give it nothing.

## Implementation notes

A loop comes to an end when it has a result for some number of rounds; the two numbers of
`flushUnlockedLoop` bound its own rounds and those of the priority loop. `flushUnlocked` has
bounds of its own, and `flushUnlocked_of_returns` shows that they cut off no flush that would
have returned.
-/

namespace PipelineTunnel.Common

open StepSystem

/-- A call of `::write` for no bytes writes none. -/
def Socket.Plain (sock : Socket) : Prop := ∀ call, sock.write call 0 = .wrote 0

/-- The loops of `flush_unlocked` come to an end. -/
def Returns (sock : Socket) (s : Channel) : Prop :=
  ∃ bound fuel result, flushUnlockedLoop sock bound fuel s = some result

/-- They come to an end whatever the socket does. -/
def FlushReturns (s : Channel) : Prop := ∀ sock : Socket, sock.Plain → Returns sock s

/-! ## Queues with empty chunks -/

/-- The offset is inside the front chunk, unless that is empty. -/
structure Placed (chunks : List Bytes) (offset : Nat) : Prop where
  inside : ∀ front ∈ chunks.head?, front ≠ [] → offset < front.length
  empty : chunks = [] → offset = 0

theorem Placed.nil : Placed [] 0 := ⟨nofun, fun _ => rfl⟩

theorem Placed.concat {chunks : List Bytes} {offset : Nat} (h : Placed chunks offset)
    (data : Bytes) : Placed (chunks ++ [data]) offset := by
  refine ⟨fun front hfront hne => ?_, by simp⟩
  cases hc : chunks with
  | nil =>
      rw [h.empty hc]
      exact List.length_pos_iff.mpr hne
  | cons first rest =>
      rw [hc] at hfront
      exact h.inside front (by simpa [hc] using hfront) hne

theorem Placed.advance {front : Bytes} (rest : List Bytes) (offset n : Nat) :
    Placed (advance (front :: rest) offset n).1 (advance (front :: rest) offset n).2 := by
  rw [Common.advance]
  split
  · exact ⟨fun next _ hne => List.length_pos_iff.mpr hne, fun _ => rfl⟩
  · rename_i hlt
    refine ⟨fun first hfirst _ => ?_, fun hnil => absurd hnil (List.cons_ne_nil _ _)⟩
    obtain rfl : front = first := by simpa using hfirst
    dsimp only
    omega

/-- Both queues are well placed. -/
structure Channel.Placed (s : Channel) : Prop where
  normal : Common.Placed s.buf.chunks s.buf.readOffset
  priority : Common.Placed s.buf.priorityChunks s.buf.priorityReadOffset

/-- No queue holds an empty chunk. -/
def Channel.Filled (s : Channel) : Prop := [] ∉ s.buf.chunks ∧ [] ∉ s.buf.priorityChunks

instance (s : Channel) : Decidable s.Filled := inferInstanceAs (Decidable (_ ∧ _))

variable {sock : Socket} {s s' : Channel}

theorem Channel.Placed.normalTaken {front : Bytes} {rest : List Bytes} {n : Nat} (h : s.Placed) :
    (normalTaken s front rest n).Placed :=
  ⟨.advance rest s.buf.readOffset n, h.priority⟩

theorem Channel.Placed.priorityTaken {msg : Bytes} {rest : List Bytes} {n : Nat} (h : s.Placed) :
    (priorityTaken s msg rest n).Placed :=
  ⟨h.normal, .advance rest s.buf.priorityReadOffset n⟩

theorem placed_flushPriorityUnlocked {fuel : Nat} {ok : Bool} (h : s.Placed)
    (hflush : flushPriorityUnlocked sock fuel s = some (s', ok)) : s'.Placed := by
  fun_induction flushPriorityUnlocked sock fuel s with
  | case1 => cases hflush
  | case2 =>
      cases hflush
      exact h
  | case3 fuel s msg rest hchunks n hwrite hpos ih =>
      exact ih h.priorityTaken hflush
  | case4 fuel s msg rest hchunks n hwrite hzero ih => exact ih ⟨h.normal, h.priority⟩ hflush
  | case5 =>
      cases hflush
      exact ⟨h.normal, h.priority⟩
  | case6 =>
      cases hflush
      exact ⟨h.normal, h.priority⟩

theorem placed_flushUnlockedLoop {bound fuel : Nat} {ok : Bool} (h : s.Placed)
    (hflush : flushUnlockedLoop sock bound fuel s = some (s', ok)) : s'.Placed := by
  fun_induction flushUnlockedLoop sock bound fuel s with
  | case1 => cases hflush
  | case2 fuel s hchunks => exact placed_flushPriorityUnlocked h hflush
  | case3 => cases hflush
  | case4 fuel s front rest hchunks n hwrite hpos t hframe s₁ hpriority =>
      cases hflush
      exact placed_flushPriorityUnlocked h.normalTaken hpriority
  | case5 fuel s front rest hchunks n hwrite hpos t hframe s₁ hpriority ih =>
      exact ih (placed_flushPriorityUnlocked h.normalTaken hpriority) hflush
  | case6 fuel s front rest hchunks n hwrite hpos t hframe ih =>
      exact ih h.normalTaken hflush
  | case7 fuel s front rest hchunks n hwrite hzero ih => exact ih ⟨h.normal, h.priority⟩ hflush
  | case8 =>
      cases hflush
      exact ⟨h.normal, h.priority⟩
  | case9 =>
      cases hflush
      exact ⟨h.normal, h.priority⟩

/-! ## Rounds that write nothing -/

/-- An empty rest of the front chunk keeps the priority loop for ever. -/
theorem flushPriorityUnlocked_stuck (hsock : sock.Plain) (fuel : Nat) {msg : Bytes}
    {rest : List Bytes} : ∀ {s : Channel}, s.buf.priorityChunks = msg :: rest →
    msg.drop s.buf.priorityReadOffset = [] → flushPriorityUnlocked sock fuel s = none := by
  induction fuel with
  | zero => intro s _ _; rfl
  | succ fuel ih =>
      intro s hchunks hrest
      rw [flushPriorityUnlocked, hchunks]
      simp only [hrest, List.length_nil, hsock s.calls, gt_iff_lt, Nat.lt_irrefl, if_false]
      exact ih hchunks hrest

theorem flushUnlockedLoop_stuck (hsock : sock.Plain) (bound fuel : Nat) {front : Bytes}
    {rest : List Bytes} : ∀ {s : Channel}, s.buf.chunks = front :: rest →
    front.drop s.buf.readOffset = [] → flushUnlockedLoop sock bound fuel s = none := by
  induction fuel with
  | zero => intro s _ _; rfl
  | succ fuel ih =>
      intro s hchunks hrest
      rw [flushUnlockedLoop, hchunks]
      simp only [hrest, List.length_nil, hsock s.calls, gt_iff_lt, Nat.lt_irrefl, if_false]
      exact ih hchunks hrest

/-- More rounds do not change a result of the priority loop. -/
theorem flushPriorityUnlocked_mono {fuel more : Nat} (hle : fuel ≤ more) {result : Channel × Bool}
    (hflush : flushPriorityUnlocked sock fuel s = some result) :
    flushPriorityUnlocked sock more s = some result := by
  induction fuel generalizing s more with
  | zero => cases hflush
  | succ fuel ih =>
      obtain ⟨more, rfl⟩ : ∃ k, more = k + 1 := ⟨more - 1, by omega⟩
      rw [flushPriorityUnlocked] at hflush ⊢
      cases hchunks : s.buf.priorityChunks with
      | nil => simpa [hchunks] using hflush
      | cons msg rest =>
          cases hwrite : sock.write s.calls (msg.drop s.buf.priorityReadOffset).length with
          | wrote n =>
              simp only [hchunks, hwrite] at hflush ⊢
              split_ifs at hflush ⊢ with hpos
              · exact ih (by omega) hflush
              · exact ih (by omega) hflush
          | again =>
              simp only [hchunks, hwrite] at hflush ⊢
              exact hflush
          | error =>
              simp only [hchunks, hwrite] at hflush ⊢
              exact hflush

theorem flushPriorityUnlocked_unique {fuel fuel' : Nat} {result result' : Channel × Bool}
    (h : flushPriorityUnlocked sock fuel s = some result)
    (h' : flushPriorityUnlocked sock fuel' s = some result') : result = result' := by
  have hmax := flushPriorityUnlocked_mono (Nat.le_max_left fuel fuel') h
  rw [flushPriorityUnlocked_mono (Nat.le_max_right fuel fuel') h'] at hmax
  exact (Option.some.inj hmax).symm

/-- A call of `::write` for the rest of a chunk takes part of it, unless the chunk is empty. -/
theorem Placed.wrote {front : Bytes} {rest : List Bytes} {offset call n : Nat}
    (h : Placed (front :: rest) offset) (hne : front ≠ [])
    (hwrite : sock.write call (front.drop offset).length = .wrote n) :
    0 < n ∧ (unwritten (Common.advance (front :: rest) offset n).1
        (Common.advance (front :: rest) offset n).2).length <
      (unwritten (front :: rest) offset).length := by
  have hin := h.inside front rfl hne
  have hlen : 0 < (front.drop offset).length := by
    rw [List.length_drop]
    omega
  obtain ⟨hpos, hle⟩ := sock.valid _ _ _ hlen hwrite
  have hsum := length_unwritten_advance rest (Nat.le_of_lt hin) hle
  exact ⟨hpos, by omega⟩

theorem mem_advance {chunks : List Bytes} {offset n : Nat} {chunk : Bytes}
    (h : chunk ∈ (advance chunks offset n).1) : chunk ∈ chunks := by
  cases chunks with
  | nil => exact h
  | cons front rest =>
      rw [advance] at h
      split_ifs at h
      · exact List.mem_cons_of_mem front h
      · exact h

/-- The priority loop comes to an end within the bytes of its queue, or an empty chunk keeps
it for ever. -/
theorem flushPriorityUnlocked_or_stuck (hsock : sock.Plain) (fuel : Nat) :
    ∀ {s : Channel}, s.Placed → s.buf.priority.length < fuel →
    (∃ s' ok, flushPriorityUnlocked sock fuel s = some (s', ok) ∧
        s'.buf.priority.length ≤ s.buf.priority.length ∧ s'.buf.normal = s.buf.normal ∧
        (s.Filled → s'.Filled)) ∨
      ¬ s.Filled ∧ ∀ fuel, flushPriorityUnlocked sock fuel s = none := by
  induction fuel with
  | zero => intro s _ hlt; omega
  | succ fuel ih =>
      intro s h hlt
      cases hchunks : s.buf.priorityChunks with
      | nil =>
          left
          refine ⟨s, true, ?_, Nat.le_refl _, rfl, id⟩
          rw [flushPriorityUnlocked, hchunks]
      | cons msg rest =>
          by_cases hmsg : msg = []
          · right
            refine ⟨fun hfilled => hfilled.2 (by simp [hchunks, hmsg]), fun fuel => ?_⟩
            exact flushPriorityUnlocked_stuck hsock fuel hchunks (by rw [hmsg, List.drop_nil])
          · cases hwrite : sock.write s.calls (msg.drop s.buf.priorityReadOffset).length with
            | again =>
                left
                refine ⟨s.noRoom, false, ?_, Nat.le_refl _, rfl, id⟩
                simp only [flushPriorityUnlocked, hchunks, hwrite]
            | error =>
                left
                refine ⟨s.failed, true, ?_, Nat.le_refl _, rfl, id⟩
                simp only [flushPriorityUnlocked, hchunks, hwrite]
            | wrote n =>
                have hplaced := h.priority
                rw [hchunks] at hplaced
                obtain ⟨hpos, hless⟩ := hplaced.wrote hmsg hwrite
                have hround : ∀ k, flushPriorityUnlocked sock (k + 1) s =
                    flushPriorityUnlocked sock k (priorityTaken s msg rest n) := by
                  intro k
                  simp only [flushPriorityUnlocked, hchunks, hwrite, gt_iff_lt, if_pos hpos]
                have hshrink : (priorityTaken s msg rest n).buf.priority.length <
                    s.buf.priority.length := by
                  simpa [priorityTaken, WriteBuffer.priority, hchunks] using hless
                have hnext : (priorityTaken s msg rest n).Placed := h.priorityTaken
                have hkeep : s.Filled → (priorityTaken s msg rest n).Filled := by
                  intro hfilled
                  refine ⟨hfilled.1, fun hmem => hfilled.2 ?_⟩
                  rw [hchunks]
                  exact mem_advance hmem
                rcases ih hnext (by omega) with ⟨s', ok, hrun, hle, hnormal, hfill⟩ | ⟨hnot, hnone⟩
                · left
                  refine ⟨s', ok, by rw [hround, hrun], by omega, hnormal, ?_⟩
                  exact fun hfilled => hfill (hkeep hfilled)
                · right
                  refine ⟨fun hfilled => hnot (hkeep hfilled), fun fuel => ?_⟩
                  cases fuel with
                  | zero => rfl
                  | succ k => rw [hround, hnone]

/-! ## Rounds of the loop over the normal queue -/

section Round

variable {front : Bytes} {rest : List Bytes} {n : Nat}

theorem flushUnlockedLoop_round (hchunks : s.buf.chunks = front :: rest)
    (hwrite : sock.write s.calls (front.drop s.buf.readOffset).length = .wrote n) (hpos : 0 < n)
    (hframe : ¬ s.buf.readOffset + n ≥ front.length) (bound fuel : Nat) :
    flushUnlockedLoop sock bound (fuel + 1) s =
      flushUnlockedLoop sock bound fuel (normalTaken s front rest n) := by
  simp only [flushUnlockedLoop, hchunks, hwrite, gt_iff_lt, if_pos hpos, if_neg hframe]

/-- At the end of a frame the priority loop decides whether the next frame is reached. -/
theorem flushUnlockedLoop_frame (hchunks : s.buf.chunks = front :: rest)
    (hwrite : sock.write s.calls (front.drop s.buf.readOffset).length = .wrote n) (hpos : 0 < n)
    (hframe : s.buf.readOffset + n ≥ front.length) (bound fuel : Nat) :
    flushUnlockedLoop sock bound (fuel + 1) s =
      match flushPriorityUnlocked sock bound (normalTaken s front rest n) with
      | none => none
      | some (s₁, false) => some (s₁, false)
      | some (s₁, true) => flushUnlockedLoop sock bound fuel s₁ := by
  rw [flushUnlockedLoop, hchunks]
  cases hpriority : flushPriorityUnlocked sock bound (normalTaken s front rest n) with
  | none => simp only [hwrite, gt_iff_lt, if_pos hpos, if_pos hframe, hpriority]
  | some result =>
      obtain ⟨s₁, ok⟩ := result
      cases ok with
      | false => simp only [hwrite, gt_iff_lt, if_pos hpos, if_pos hframe, hpriority]
      | true => simp only [hwrite, gt_iff_lt, if_pos hpos, if_pos hframe, hpriority]

theorem Channel.Filled.normalTaken (hchunks : s.buf.chunks = front :: rest) (h : s.Filled) :
    (normalTaken s front rest n).Filled := by
  refine ⟨fun hmem => h.1 ?_, h.2⟩
  rw [hchunks]
  exact mem_advance hmem

/-- A loop that comes to an end has made a round. -/
theorem Returns.round (h : Returns sock s) :
    ∃ bound fuel result, flushUnlockedLoop sock bound (fuel + 1) s = some result := by
  obtain ⟨bound, fuel, result, hrun⟩ := h
  cases fuel with
  | zero => cases hrun
  | succ fuel => exact ⟨bound, fuel, result, hrun⟩

theorem Returns.normalTaken (hchunks : s.buf.chunks = front :: rest)
    (hwrite : sock.write s.calls (front.drop s.buf.readOffset).length = .wrote n) (hpos : 0 < n)
    (hframe : ¬ s.buf.readOffset + n ≥ front.length) (h : Returns sock s) :
    Returns sock (normalTaken s front rest n) := by
  obtain ⟨bound, fuel, result, hrun⟩ := h.round
  rw [flushUnlockedLoop_round hchunks hwrite hpos hframe] at hrun
  exact ⟨bound, fuel, result, hrun⟩

/-- At the end of a frame the priority loop comes to an end first, and the rest of the loop after
it. -/
theorem Returns.frame (hchunks : s.buf.chunks = front :: rest)
    (hwrite : sock.write s.calls (front.drop s.buf.readOffset).length = .wrote n) (hpos : 0 < n)
    (hframe : s.buf.readOffset + n ≥ front.length) (h : Returns sock s) :
    ∃ bound s₁ ok, flushPriorityUnlocked sock bound (Common.normalTaken s front rest n) =
      some (s₁, ok) ∧ (ok = true → Returns sock s₁) := by
  obtain ⟨bound, fuel, result, hrun⟩ := h.round
  rw [flushUnlockedLoop_frame hchunks hwrite hpos hframe] at hrun
  cases hpriority : flushPriorityUnlocked sock bound (Common.normalTaken s front rest n) with
  | none => simp [hpriority] at hrun
  | some result₁ =>
      obtain ⟨s₁, ok⟩ := result₁
      refine ⟨bound, s₁, ok, hpriority, ?_⟩
      rintro rfl
      rw [hpriority] at hrun
      exact ⟨bound, fuel, result, hrun⟩

end Round

/-- The loops come to an end within the bytes of their queues, or an empty chunk keeps them
for ever. -/
theorem flushUnlockedLoop_or_stuck (hsock : sock.Plain) {bound : Nat} (fuel : Nat) :
    ∀ {s : Channel}, s.Placed → s.buf.normal.length < fuel → s.buf.priority.length < bound →
    (flushUnlockedLoop sock bound fuel s).isSome ∨ ¬ s.Filled ∧ ¬ Returns sock s := by
  induction fuel with
  | zero => intro s _ hlt; omega
  | succ fuel ih =>
      intro s h hlt hbound
      cases hchunks : s.buf.chunks with
      | nil =>
          have hround : ∀ b k, flushUnlockedLoop sock b (k + 1) s =
              flushPriorityUnlocked sock b s := by
            intro b k
            rw [flushUnlockedLoop, hchunks]
          rcases flushPriorityUnlocked_or_stuck hsock bound h hbound with
            ⟨s', ok, hrun, -⟩ | ⟨hnot, hnone⟩
          · left
            rw [hround, hrun]
            rfl
          · right
            refine ⟨hnot, fun hreturns => ?_⟩
            obtain ⟨b, k, result, hrun⟩ := hreturns.round
            rw [hround, hnone] at hrun
            cases hrun
      | cons front rest =>
          by_cases hfront : front = []
          · right
            refine ⟨fun hfilled => hfilled.1 (by simp [hchunks, hfront]), ?_⟩
            rintro ⟨b, k, result, hrun⟩
            rw [flushUnlockedLoop_stuck hsock b k hchunks (by rw [hfront, List.drop_nil])] at hrun
            cases hrun
          · cases hwrite : sock.write s.calls (front.drop s.buf.readOffset).length with
            | again =>
                left
                simp only [flushUnlockedLoop, hchunks, hwrite, Option.isSome_some]
            | error =>
                left
                simp only [flushUnlockedLoop, hchunks, hwrite, Option.isSome_some]
            | wrote n =>
                have hplaced := h.normal
                rw [hchunks] at hplaced
                obtain ⟨hpos, hless⟩ := hplaced.wrote hfront hwrite
                have hshrink : (normalTaken s front rest n).buf.normal.length <
                    s.buf.normal.length := by
                  simpa [normalTaken, WriteBuffer.normal, hchunks] using hless
                have hnext : (normalTaken s front rest n).Placed := h.normalTaken
                by_cases hframe : s.buf.readOffset + n ≥ front.length
                · have hround := flushUnlockedLoop_frame hchunks hwrite hpos hframe
                  rcases flushPriorityUnlocked_or_stuck hsock bound hnext hbound with
                    ⟨s₁, ok, hrun, hle, hnormal, hfill⟩ | ⟨hnot, hnone⟩
                  · cases ok with
                    | false =>
                        left
                        rw [hround, hrun]
                        rfl
                    | true =>
                        have hplaced₁ := placed_flushPriorityUnlocked hnext hrun
                        rcases ih hplaced₁ (by rw [hnormal]; omega) (Nat.lt_of_le_of_lt hle hbound)
                          with hsome | ⟨hnot, hnone⟩
                        · left
                          rw [hround, hrun]
                          exact hsome
                        · right
                          refine ⟨fun hfilled => hnot (hfill (hfilled.normalTaken hchunks)), ?_⟩
                          intro hreturns
                          obtain ⟨b, s₂, ok, hrun', hrest⟩ :=
                            hreturns.frame hchunks hwrite hpos hframe
                          cases flushPriorityUnlocked_unique hrun hrun'
                          exact hnone (hrest rfl)
                  · right
                    refine ⟨fun hfilled => hnot (hfilled.normalTaken hchunks), ?_⟩
                    intro hreturns
                    obtain ⟨b, s₂, ok, hrun, -⟩ := hreturns.frame hchunks hwrite hpos hframe
                    rw [hnone] at hrun
                    cases hrun
                · have hround := flushUnlockedLoop_round hchunks hwrite hpos hframe
                  rcases ih hnext (by omega) hbound with hsome | ⟨hnot, hnone⟩
                  · left
                    rw [hround]
                    exact hsome
                  · right
                    refine ⟨fun hfilled => hnot (hfilled.normalTaken hchunks), ?_⟩
                    exact fun hreturns => hnone (hreturns.normalTaken hchunks hwrite hpos hframe)

/-- The bounds of `flushUnlocked` cut off no flush that comes to an end. -/
theorem flushUnlocked_of_returns (hsock : sock.Plain) (h : s.Placed) (hreturns : Returns sock s) :
    (flushUnlocked sock s).isSome := by
  rcases flushUnlockedLoop_or_stuck hsock (roundBound s.buf.chunks s.buf.readOffset) h
    (Nat.lt_succ_self _) (Nat.lt_succ_self _) with hsome | ⟨-, hnone⟩
  · exact hsome
  · exact absurd hreturns hnone

theorem flushUnlocked_of_filled (hsock : sock.Plain) (h : s.Placed) (hfilled : s.Filled) :
    (flushUnlocked sock s).isSome := by
  rcases flushUnlockedLoop_or_stuck hsock (roundBound s.buf.chunks s.buf.readOffset) h
    (Nat.lt_succ_self _) (Nat.lt_succ_self _) with hsome | ⟨hnot, -⟩
  · exact hsome
  · exact absurd hfilled hnot

theorem Returns.of_flushUnlocked (h : (flushUnlocked sock s).isSome) : Returns sock s := by
  obtain ⟨result, hrun⟩ := Option.isSome_iff_exists.mp h
  exact ⟨_, _, result, hrun⟩

/-! ## A socket that takes everything -/

/-- The socket has room for whatever it is given. -/
def eager : Socket where
  write _ len := .wrote len
  valid call len n hlen hwrite := by
    obtain rfl := Written.wrote.inj hwrite
    exact ⟨hlen, Nat.le_refl _⟩

theorem eager_plain : eager.Plain := fun _ => rfl

theorem ne_nil_of_wrote {chunk : Bytes} {offset call n : Nat}
    (hwrite : eager.write call (chunk.drop offset).length = .wrote n) (hpos : 0 < n) :
    offset + n ≥ chunk.length ∧ chunk ≠ [] := by
  have hn : (chunk.drop offset).length = n := Written.wrote.inj hwrite
  rw [List.length_drop] at hn
  refine ⟨by omega, ?_⟩
  rintro rfl
  rw [List.length_nil] at hn
  omega

theorem flushPriorityUnlocked_eager {fuel : Nat} {ok : Bool}
    (hflush : flushPriorityUnlocked eager fuel s = some (s', ok)) :
    [] ∉ s.buf.priorityChunks ∧ s'.buf.chunks = s.buf.chunks ∧ ok = true := by
  fun_induction flushPriorityUnlocked eager fuel s with
  | case1 => cases hflush
  | case2 fuel s hchunks =>
      cases hflush
      exact ⟨by simp [hchunks], rfl, rfl⟩
  | case3 fuel s msg rest hchunks n hwrite hpos ih =>
      obtain ⟨hend, hmsg⟩ := ne_nil_of_wrote hwrite hpos
      obtain ⟨hrest, hkeep, hok⟩ := ih hflush
      simp only [priorityTaken, advance, if_pos hend] at hrest
      refine ⟨?_, hkeep, hok⟩
      rw [hchunks, List.mem_cons, not_or]
      exact ⟨Ne.symm hmsg, hrest⟩
  | case4 fuel s msg rest hchunks n hwrite hzero ih => exact ih hflush
  | case5 fuel s msg rest hchunks hwrite => cases hwrite
  | case6 fuel s msg rest hchunks hwrite => cases hwrite

/-- With all the room it needs a flush comes to an end only when no chunk is empty. -/
theorem filled_of_flushUnlockedLoop_eager {bound fuel : Nat} {ok : Bool}
    (hflush : flushUnlockedLoop eager bound fuel s = some (s', ok)) : s.Filled := by
  fun_induction flushUnlockedLoop eager bound fuel s with
  | case1 => cases hflush
  | case2 fuel s hchunks =>
      exact ⟨by simp [hchunks], (flushPriorityUnlocked_eager hflush).1⟩
  | case3 => cases hflush
  | case4 fuel s front rest hchunks n hwrite hpos t hframe s₁ hpriority =>
      cases (flushPriorityUnlocked_eager hpriority).2.2
  | case5 fuel s front rest hchunks n hwrite hpos t hframe s₁ hpriority ih =>
      obtain ⟨hend, hfront⟩ := ne_nil_of_wrote hwrite hpos
      obtain ⟨hnone, hkeep, -⟩ := flushPriorityUnlocked_eager hpriority
      have hrest := (ih hflush).1
      rw [hkeep] at hrest
      simp only [t, normalTaken, advance, if_pos hend] at hrest
      refine ⟨?_, hnone⟩
      rw [hchunks, List.mem_cons, not_or]
      exact ⟨Ne.symm hfront, hrest⟩
  | case6 fuel s front rest hchunks n hwrite hpos t hframe ih =>
      exact absurd (ne_nil_of_wrote hwrite hpos).1 hframe
  | case7 fuel s front rest hchunks n hwrite hzero ih => exact ih hflush
  | case8 fuel s front rest hchunks hwrite => cases hwrite
  | case9 fuel s front rest hchunks hwrite => cases hwrite

theorem Channel.Placed.flushReturns_iff (h : s.Placed) : FlushReturns s ↔ s.Filled := by
  constructor
  · intro hreturns
    obtain ⟨bound, fuel, ⟨s', ok⟩, hrun⟩ := hreturns eager eager_plain
    exact filled_of_flushUnlockedLoop_eager hrun
  · intro hfilled sock hsock
    exact .of_flushUnlocked (flushUnlocked_of_filled hsock h hfilled)

/-! ## Every call keeps the queues placed -/

theorem Channel.Placed.append (h : s.Placed) (data : Bytes) :
    Channel.Placed { s with buf := s.buf.append data } :=
  ⟨h.normal.concat data, h.priority⟩

theorem placed_writeDirect (sock : Socket) (h : s.Placed) (data : Bytes) :
    (writeDirect sock s data).1.Placed := by
  have hsame : ∀ t : Channel, t.buf = s.buf → t.Placed := by
    intro t ht
    exact ⟨by rw [ht]; exact h.normal, by rw [ht]; exact h.priority⟩
  rw [writeDirect]
  cases hwrite : sock.write s.calls data.length with
  | again => exact (hsame s.noRoom rfl).append data
  | error => exact hsame s.failed rfl
  | wrote n =>
      dsimp only
      split_ifs with hlt
      · exact (hsame (s.took .normal (data.take n)) rfl).append (data.drop n)
      · exact hsame (s.took .normal data) rfl

theorem placed_write {data : Bytes} {r : Int} (h : s.Placed)
    (hwrite : write sock s data = some (s', r)) : s'.Placed := by
  rw [write] at hwrite
  split_ifs at hwrite with hqueued
  · cases hflush : flushUnlocked sock s with
    | none => simp [hflush] at hwrite
    | some result =>
        obtain ⟨s₁, ok⟩ := result
        have hplaced := placed_flushUnlockedLoop h hflush
        simp only [hflush] at hwrite
        split_ifs at hwrite with hleft
        · cases hwrite
          exact hplaced.append data
        · have hnext := placed_writeDirect sock hplaced data
          rw [Option.some.inj hwrite] at hnext
          exact hnext
  · have hnext := placed_writeDirect sock h data
    rw [Option.some.inj hwrite] at hnext
    exact hnext

theorem placed_step {u u' : Usage} {o : Op} (h : u.channel.Placed)
    (hstep : u.step sock o = some u') : u'.channel.Placed := by
  cases o with
  | write data =>
      rw [Usage.step] at hstep
      cases hwrite : write sock u.channel data with
      | none => simp [hwrite] at hstep
      | some result =>
          obtain ⟨t, r⟩ := result
          have hplaced := placed_write h hwrite
          simp only [hwrite] at hstep
          split_ifs at hstep with hr
          · cases hstep
            exact hplaced
          · cases hstep
            exact hplaced
  | writePriority data =>
      cases hstep
      exact ⟨h.normal, h.priority.concat data⟩
  | flush =>
      obtain ⟨⟨t, ok⟩, hflush, rfl⟩ := Option.map_eq_some_iff.mp hstep
      exact placed_flushUnlockedLoop h hflush

/-! ## Runs -/

/-- No empty data is handed to `write_priority`, nor to `write` while normal data is queued. -/
def Usage.Fits (u : Usage) : Op → Prop
  | .write data => data ≠ [] ∨ u.channel.buf.chunks = []
  | .writePriority data => data ≠ []
  | .flush => True

instance (u : Usage) : ∀ o, Decidable (u.Fits o)
  | .write _ => inferInstanceAs (Decidable (_ ∨ _))
  | .writePriority data => inferInstanceAs (Decidable (data ≠ []))
  | .flush => isTrue trivial

/-- Empty data goes straight to the socket when nothing is queued. -/
theorem write_nil (hsock : sock.Plain) (hempty : s.buf.chunks = []) :
    write sock s [] = some (s.took .normal [], 0) := by
  rw [write, if_neg (not_not.mpr hempty), writeDirect, List.length_nil, hsock s.calls]
  rfl

theorem Usage.Exact.step_of_fits (hsock : sock.Plain) {u : Usage} (h : u.Exact) {o : Op}
    (ho : u.Fits o) : ∃ u', u.step sock o = some u' ∧ u'.Exact := by
  cases o with
  | write data =>
      by_cases hdata : data = []
      · -- nothing is queued, so the empty data is not kept either
        subst hdata
        have hempty : u.channel.buf.chunks = [] := ho.resolve_left (not_not.mpr rfl)
        refine ⟨_, by simp only [Usage.step, write_nil hsock hempty]; rfl, ?_⟩
        have hexact := h.took hempty []
        rw [Usage.Exact, List.flatten_append, List.flatten_singleton]
        exact hexact
      · exact h.step hdata
  | writePriority data => exact h.step (o := .writePriority data) ho
  | flush => exact h.step (o := .flush) trivial

theorem Exact.placed {N P : Bytes} (h : Exact s N P) : s.Placed := by
  constructor
  · exact ⟨fun front hfront _ => h.normalQueue.inside front hfront, h.normalQueue.empty⟩
  · exact ⟨fun front hfront _ => h.priorityQueue.inside front hfront, h.priorityQueue.empty⟩

theorem Exact.filled {N P : Bytes} (h : Exact s N P) : s.Filled :=
  ⟨fun hmem => h.normalQueue.filled [] hmem rfl, fun hmem => h.priorityQueue.filled [] hmem rfl⟩

/-- A socket without room. -/
def full : Socket where
  write _ len := if len = 0 then .wrote 0 else .again
  valid call len n hlen hwrite := by
    rw [if_neg (by omega)] at hwrite
    cases hwrite

theorem full_plain : full.Plain := fun _ => rfl

/-- Without room the first call of a flush is its last. -/
theorem flushUnlocked_full (h : s.Placed) (hfilled : s.Filled) (hqueued : s.buf.chunks ≠ []) :
    flushUnlocked full s = some (s.noRoom, false) := by
  obtain ⟨front, rest, hchunks⟩ := List.exists_cons_of_ne_nil hqueued
  have hfront : front ≠ [] := by
    rintro rfl
    exact hfilled.1 (by simp [hchunks])
  have hin := h.normal.inside front (by simp [hchunks]) hfront
  have hwrite : full.write s.calls (front.drop s.buf.readOffset).length = .again := by
    apply if_neg
    rw [List.length_drop]
    omega
  simp only [flushUnlocked, roundBound, flushUnlockedLoop, hchunks, hwrite]

/-- Empty data that does not fit is kept by a socket without room. -/
theorem exists_stuck_of_not_fits {u : Usage} (h : u.channel.Placed) (hfilled : u.channel.Filled)
    {o : Op} (ho : ¬ u.Fits o) :
    ∃ sock : Socket, sock.Plain ∧ ∃ u', u.step sock o = some u' ∧ ¬ u'.channel.Filled := by
  cases o with
  | write data =>
      obtain ⟨hdata, hqueued⟩ := not_or.mp ho
      obtain rfl := not_not.mp hdata
      have hflush := flushUnlocked_full h hfilled hqueued
      have hwrite : write full u.channel [] =
          some ({ u.channel.noRoom with buf := u.channel.buf.append [] }, 1) := by
        simp only [write, if_pos hqueued, hflush]
        exact if_pos hqueued
      refine ⟨full, full_plain, _, by simp only [Usage.step, hwrite]; rfl, fun hnot => hnot.1 ?_⟩
      simp [WriteBuffer.append]
  | writePriority data =>
      obtain rfl : data = [] := not_not.mp ho
      refine ⟨full, full_plain, _, rfl, fun hnot => hnot.2 ?_⟩
      simp [writePriority]
  | flush => exact absurd trivial ho

/-- A flush comes to an end in every state of a run that hands over no empty data to
`write_priority` and none to `write` behind queued data. In every state that is reached it
comes to an end exactly when no queue holds an empty chunk; and from a state where it does, a
call with other data can lead to one where it does not. -/
theorem flush_returns {sock : Socket} (hsock : sock.Plain) (ops : List Op) :
    (Meets (Usage.step sock) Usage.Fits {} ops →
        ∃ u, run (Usage.step sock) {} ops = some u ∧ FlushReturns u.channel) ∧
      ∀ u, run (Usage.step sock) {} ops = some u →
        (FlushReturns u.channel ↔ u.channel.Filled) ∧
        ∀ o, FlushReturns u.channel → ¬ u.Fits o →
          ∃ sock' : Socket, sock'.Plain ∧
            ∃ u', u.step sock' o = some u' ∧ ¬ FlushReturns u'.channel := by
  constructor
  · intro hmeets
    have hstart : Usage.Exact {} := ⟨.nil, .nil, rfl, rfl, rfl⟩
    obtain ⟨u, hrun, hexact⟩ := @exists_run_of_meets _ _ _ _ (fun _ u => u.Exact)
      (fun _ u o h ho => h.step_of_fits hsock ho) [] _ _ hstart hmeets
    exact ⟨u, hrun, hexact.placed.flushReturns_iff.mpr hexact.filled⟩
  · intro u hrun
    have hplaced : u.channel.Placed :=
      invariant_of_run (I := fun u : Usage => u.channel.Placed)
        (fun _ _ _ h hstep => placed_step h hstep) ⟨.nil, .nil⟩ hrun
    refine ⟨hplaced.flushReturns_iff, fun o hreturns ho => ?_⟩
    obtain ⟨sock', hsock', u', hstep, hnot⟩ :=
      exists_stuck_of_not_fits hplaced (hplaced.flushReturns_iff.mp hreturns) ho
    refine ⟨sock', hsock', u', hstep, ?_⟩
    rwa [(placed_step hplaced hstep).flushReturns_iff]

/-- The empty data of the second call goes straight to the socket. -/
theorem flush_returns_eager :
    ∃ u, run (Usage.step eager) {} [.write [1, 2], .write [], .writePriority [9], .flush] =
        some u ∧ FlushReturns u.channel :=
  (flush_returns eager_plain [.write [1, 2], .write [], .writePriority [9], .flush]).1 (by decide)

/-- A packet that is only its connection id leaves `write` nothing to send; behind a chunk that
the socket had no room for it is queued, and no flush gets past it once there is room. -/
theorem flush_hangs_behind_empty_write :
    ∃ u, run (Usage.step full) {} [.write [1], .write []] = some u ∧ ¬ FlushReturns u.channel := by
  refine ⟨_, rfl, fun hreturns => ?_⟩
  obtain ⟨bound, fuel, ⟨s', ok⟩, hrun⟩ := hreturns eager eager_plain
  have hfilled := filled_of_flushUnlockedLoop_eager hrun
  exact absurd hfilled (by decide)

end PipelineTunnel.Common
