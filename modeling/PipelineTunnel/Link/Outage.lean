import PipelineTunnel.Link.Reliability

/-!
# What `wire_write` reports

A module that hands a packet to `wire_write` learns from the result whether the packet was
taken. The two ends answer differently when the connection is closed: the server returns `-1`,
the client logs the loss and returns `0`.

## Implementation notes

A call of `wire_write` for an open connection returns after its frame entered `unacked`, one
for a closed connection at once. A hard error of the socket is not reported: the frame is in
`unacked` by then.
-/

namespace PipelineTunnel.Link

open StepSystem Protocol

/-- A call that has returned, with the frame that got a number. -/
structure Call where
  payload : Bytes
  result : Int
  frame : Option Frame
deriving DecidableEq, Repr

/-- The result for a connection that is closed. -/
def closedResult : Role → Int
  | .client => 0
  | .server => -1

/-- A data connection and the calls that have returned. -/
structure CallLog where
  link : DataLink := {}
  returned : List Call := []
deriving DecidableEq, Repr

/-- The calls that return in a step. -/
def returns (role : Role) (s : DataLink) : Step → List Call
  | .send payload => if s.isOpen then [] else [⟨payload, closedResult role, none⟩]
  | .keep => s.sending.toList.map fun f => ⟨f.payload, 0, some f⟩
  | _ => []

def CallLog.step (role : Role) (s : CallLog) (l : Step) : Option CallLog :=
  (Link.step role s.link l).map fun link =>
    { link := link, returned := s.returned ++ returns role s.link l }

/-- The frames of the calls that have returned, in order. -/
def CallLog.frames (s : CallLog) : List Frame := s.returned.filterMap Call.frame

/-- The frame has the number that was next, and it is kept until it is acknowledged or
`WIRE_MAX_UNACKED` later ones have taken its place. -/
structure Recorded (s : CallLog) (f : Frame) : Prop where
  next : s.frames[f.ord]? = some f
  seq : f.seq = UInt16.ofNat f.ord
  kept : f ∈ s.link.unacked ∨ f ∈ s.link.acked ∨ f.ord + WIRE_MAX_UNACKED < s.frames.length

/-- What is in `unacked` is written again when the connection is back: all of it by the
reconnect of the client, the oldest frame by the timer. -/
structure Resends (role : Role) (s : DataLink) : Prop where
  reconnect : s.phase = .opened → ∃ s',
    run (step role) s (.clear :: List.replicate (s.unacked.length + 1) .resend) = some s' ∧
      s'.phase = .idle ∧ s'.writer = s.unacked
  timer : s.phase = .idle → s.isOpen = true → ∀ f rest, s.unacked = f :: rest →
    step role s .timer = some (s.write f)

/-- A call that reports success has recorded its packet, so that it is sent again when the
connection is back, and one that has not reports an error. -/
structure Honest (role : Role) (s : CallLog) : Prop where
  success : ∀ c ∈ s.returned, c.result = 0 →
    ∃ f, c.frame = some f ∧ f.payload = c.payload ∧ Recorded s f
  resends : Resends role s.link
  failure : ∀ c ∈ s.returned, c.frame = none → c.result < 0

/-- The connection is open when the client calls `wire_write`. -/
def OpenAtCall (role : Role) (s : CallLog) : Step → Prop
  | .send _ => role = .client → s.link.isOpen = true
  | _ => True

instance (role : Role) (s : CallLog) (l : Step) : Decidable (OpenAtCall role s l) := by
  cases l <;> unfold OpenAtCall <;> infer_instance

/-! ## What is recorded -/

/-- The invariant: the frames of the calls that returned and of the one that has not are all
that were numbered, and `unacked` holds the last of them. -/
structure Filed (s : CallLog) : Prop where
  sendSeq : s.link.sendSeq = UInt16.ofNat s.link.accepted.length
  numbered : ∀ i f, (s.frames ++ s.link.sending.toList)[i]? = some f →
    f.ord = i ∧ f.seq = UInt16.ofNat i
  count : s.frames.length + s.link.sending.toList.length = s.link.accepted.length
  window : EndsAt s.frames.length s.link.unacked
  size : s.link.unacked.length ≤ WIRE_MAX_UNACKED
  kept : ∀ f ∈ s.frames,
    f ∈ s.link.unacked ∨ f ∈ s.link.acked ∨ f.ord + WIRE_MAX_UNACKED < s.frames.length
  calls : ∀ c ∈ s.returned, ∀ f, c.frame = some f → c.result = 0 ∧ f.payload = c.payload

theorem Filed.init : Filed {} := by
  refine ⟨rfl, ?_, rfl, EndsAt.nil 0, ?_, ?_, ?_⟩ <;> simp [CallLog.frames]

theorem Filed.recorded {s : CallLog} (h : Filed s) {f : Frame} (hf : f ∈ s.frames) :
    Recorded s f := by
  obtain ⟨i, hi, rfl⟩ := List.getElem_of_mem hf
  have hget : s.frames[i]? = some s.frames[i] := List.getElem?_eq_getElem hi
  obtain ⟨hord, hseq⟩ := h.numbered i s.frames[i] (by rw [List.getElem?_append_left hi, hget])
  refine ⟨?_, ?_, h.kept _ hf⟩
  · rw [hord, hget]
  · rw [hord, hseq]

/-- What a step does to the fields that matter here. -/
structure Idle (s s' : CallLog) : Prop where
  returned : s'.returned = s.returned
  sendSeq : s'.link.sendSeq = s.link.sendSeq
  sending : s'.link.sending = s.link.sending
  accepted : s'.link.accepted = s.link.accepted
  unacked : s'.link.unacked = s.link.unacked
  acked : s'.link.acked = s.link.acked

theorem Filed.idle {s s' : CallLog} (h : Filed s) (hidle : Idle s s') : Filed s' := by
  have hframes : s'.frames = s.frames := by rw [CallLog.frames, CallLog.frames, hidle.returned]
  constructor
  case sendSeq =>
    rw [hidle.sendSeq, hidle.accepted, h.sendSeq]
  case numbered =>
    rw [hframes, hidle.sending]
    exact h.numbered
  case count =>
    rw [hframes, hidle.sending, hidle.accepted, h.count]
  case window =>
    rw [hframes, hidle.unacked]
    exact h.window
  case size =>
    rw [hidle.unacked]
    exact h.size
  case kept =>
    rw [hframes, hidle.unacked, hidle.acked]
    exact h.kept
  case calls =>
    rw [hidle.returned]
    exact h.calls

section Steps

variable {role : Role} {s : CallLog}

/-- A packet gets its number. -/
theorem Filed.send (h : Filed s) (hsending : s.link.sending = none) (hopen : s.link.isOpen = true)
    (payload : Bytes) :
    Filed { link := s.link.wireWrite payload, returned := s.returned } := by
  have hlink : s.link.wireWrite payload =
      { s.link.write ⟨s.link.sendSeq, payload, s.link.accepted.length⟩ with
        sendSeq := s.link.sendSeq + 1
        sending := some ⟨s.link.sendSeq, payload, s.link.accepted.length⟩
        passed := s.link.passed ++ [payload]
        accepted := s.link.accepted ++ [payload] } := if_pos hopen
  have hcount : s.frames.length = s.link.accepted.length := by
    have hcount := h.count
    rw [hsending] at hcount
    exact hcount
  rw [hlink]
  refine ⟨?_, ?_, ?_, h.window, h.size, h.kept, h.calls⟩
  · change s.link.sendSeq + 1 = UInt16.ofNat (s.link.accepted ++ [payload]).length
    rw [h.sendSeq, ofNat_succ, List.length_append, List.length_singleton]
  · intro i f hf
    change (s.frames ++ [_])[i]? = some f at hf
    rcases Nat.lt_or_ge i s.frames.length with hi | hi
    · apply h.numbered i f
      rw [List.getElem?_append_left hi] at hf ⊢
      exact hf
    · rw [List.getElem?_append_right hi] at hf
      obtain ⟨hlt, rfl⟩ := List.getElem?_eq_some_iff.mp hf
      rw [List.length_singleton] at hlt
      have hi' : s.link.accepted.length = i := by omega
      simp only [List.getElem_singleton]
      exact ⟨hi', by rw [h.sendSeq, hi']⟩
  · change s.frames.length + 1 = (s.link.accepted ++ [payload]).length
    rw [hcount, List.length_append, List.length_singleton]

/-- A call for a closed connection returns without a frame. -/
theorem Filed.refuse (h : Filed s) (hclosed : s.link.isOpen = false) (payload : Bytes) :
    Filed { link := s.link.wireWrite payload
            returned := s.returned ++ [⟨payload, closedResult role, none⟩] } := by
  have hlink : s.link.wireWrite payload = { s.link with passed := s.link.passed ++ [payload] } :=
    if_neg (by simp [hclosed])
  have hframes : CallLog.frames
      { link := s.link.wireWrite payload
        returned := s.returned ++ [⟨payload, closedResult role, none⟩] } = s.frames := by
    simp [CallLog.frames]
  constructor
  case sendSeq =>
    rw [hlink]
    exact h.sendSeq
  case numbered =>
    rw [hframes, hlink]
    exact h.numbered
  case count =>
    rw [hframes, hlink]
    exact h.count
  case window =>
    rw [hframes, hlink]
    exact h.window
  case size =>
    rw [hlink]
    exact h.size
  case kept =>
    rw [hframes, hlink]
    exact h.kept
  case calls =>
    intro c hc f hf
    rcases List.mem_append.mp hc with hc | hc
    · exact h.calls c hc f hf
    · rw [List.mem_singleton.mp hc] at hf
      cases hf

/-- A frame enters `unacked`, and its call returns. The oldest frame that makes room is the
`WIRE_MAX_UNACKED`-th before the new one. -/
theorem Filed.keep (h : Filed s) {f : Frame} (hsending : s.link.sending = some f) :
    Filed { link := s.link.keepUnacked f
            returned := s.returned ++ [⟨f.payload, 0, some f⟩] } := by
  have hframes : CallLog.frames
      { link := s.link.keepUnacked f
        returned := s.returned ++ [⟨f.payload, 0, some f⟩] } = s.frames ++ [f] := by
    simp [CallLog.frames]
  have hnumbered : ∀ i g, (s.frames ++ [f])[i]? = some g → g.ord = i ∧ g.seq = UInt16.ofNat i := by
    intro i g hg
    apply h.numbered i g
    rw [hsending]
    exact hg
  have hord : f.ord = s.frames.length :=
    (hnumbered s.frames.length f (by simp)).1
  have hcount : s.frames.length + 1 = s.link.accepted.length := by
    have hcount := h.count
    rw [hsending] at hcount
    exact hcount
  have hroom : ∃ n, (s.link.keepUnacked f).unacked = s.link.unacked.drop n ++ [f] ∧
      (n = 0 ∧ s.link.unacked.length < WIRE_MAX_UNACKED ∨
        n = 1 ∧ s.link.unacked.length = WIRE_MAX_UNACKED) := by
    have hsize := h.size
    rw [DataLink.keepUnacked]
    split_ifs with hfull
    · exact ⟨1, rfl, Or.inr ⟨rfl, by omega⟩⟩
    · exact ⟨0, rfl, Or.inl ⟨rfl, by omega⟩⟩
  obtain ⟨n, hunacked, hn⟩ := hroom
  have hmax : WIRE_MAX_UNACKED = 200 := rfl
  constructor
  case sendSeq =>
    exact h.sendSeq
  case numbered =>
    rw [hframes]
    change ∀ i g, ((s.frames ++ [f]) ++ [])[i]? = some g → _
    rw [List.append_nil]
    exact hnumbered
  case count =>
    rw [hframes, List.length_append, List.length_singleton]
    exact hcount
  case window =>
    rw [hframes, hunacked, List.length_append, List.length_singleton]
    exact (h.window.drop n).concat hord
  case size =>
    rw [hunacked, List.length_append, List.length_singleton, List.length_drop]
    omega
  case kept =>
    rw [hframes, hunacked, List.length_append, List.length_singleton]
    intro g hg
    rcases List.mem_append.mp hg with hg | hg
    · rcases h.kept g hg with hkept | hkept | hkept
      · rw [← List.take_append_drop n s.link.unacked] at hkept
        rcases List.mem_append.mp hkept with hfront | hrest
        · right
          right
          obtain ⟨rfl, -⟩ | ⟨rfl, hfull⟩ := hn
          · cases hfront
          · obtain ⟨i, hi, rfl⟩ := List.getElem_of_mem hfront
            have hi0 : i = 0 := by
              rw [List.length_take] at hi
              omega
            have hend := h.window 0 _ (List.getElem?_eq_getElem (by omega))
            simp only [hi0, List.getElem_take]
            omega
        · exact Or.inl (List.mem_append_left _ hrest)
      · exact Or.inr (Or.inl hkept)
      · right
        right
        omega
    · exact Or.inl (List.mem_append_right _ hg)
  case calls =>
    intro c hc g hg
    rcases List.mem_append.mp hc with hc | hc
    · exact h.calls c hc g hg
    · rw [List.mem_singleton.mp hc] at hg ⊢
      obtain rfl := Option.some.inj hg
      exact ⟨rfl, rfl⟩

/-- An acknowledged frame moves to `acked`. -/
theorem Filed.receiveAck (h : Filed s) {a : UInt16} {rest : List UInt16} :
    Filed { link := DataLink.receiveAck { s.link with acks := rest } a
            returned := s.returned } := by
  refine ⟨h.sendSeq, h.numbered, h.count, ?_, ?_, ?_, h.calls⟩
  · change EndsAt s.frames.length (s.link.unacked.dropWhile _)
    rw [List.dropWhile_eq_drop_findIdx_not]
    exact h.window.drop _
  · exact le_trans (List.dropWhile_sublist _).length_le h.size
  · intro f hf
    rcases h.kept f hf with hkept | hkept | hkept
    · rw [← List.takeWhile_append_dropWhile (p := fun f : Frame => decide (f.seq ≤ a))
        (l := s.link.unacked)] at hkept
      rcases List.mem_append.mp hkept with hfront | hrest
      · exact Or.inr (Or.inl (List.mem_append_right _ hfront))
      · exact Or.inl hrest
    · exact Or.inr (Or.inl (List.mem_append_left _ hkept))
    · exact Or.inr (Or.inr hkept)

theorem Filed.step {l : Step} {s' : CallLog} (h : Filed s)
    (hstep : s.step role l = some s') : Filed s' := by
  obtain ⟨link, hlink, rfl⟩ := Option.map_eq_some_iff.mp hstep
  have hnone : ∀ {l : Step}, returns role s.link l = [] →
      s.returned ++ returns role s.link l = s.returned := by
    intro l hl
    rw [hl, List.append_nil]
  cases step_moves hlink with
  | send payload hsending =>
      cases hopen : s.link.isOpen with
      | true =>
          rw [hnone (by simp [returns, hopen])]
          exact h.send hsending hopen payload
      | false =>
          have hret : returns role s.link (.send payload) =
              [⟨payload, closedResult role, none⟩] := by simp [returns, hopen]
          rw [hret]
          exact h.refuse hopen payload
  | @keep f hsending _ =>
      have hret : returns role s.link .keep = [⟨f.payload, 0, some f⟩] := by
        simp [returns, hsending]
      rw [hret]
      exact h.keep hsending
  | flush _ =>
      rw [hnone rfl]
      exact h.idle ⟨rfl, rfl, rfl, rfl, rfl, rfl⟩
  | deliver _ =>
      rw [hnone rfl]
      apply h.idle
      unfold DataLink.receiveData
      dsimp only
      split_ifs
      · exact ⟨rfl, rfl, rfl, rfl, rfl, rfl⟩
      · exact ⟨rfl, rfl, rfl, rfl, rfl, rfl⟩
  | ack _ _ =>
      rw [hnone rfl]
      exact h.receiveAck
  | timer _ =>
      rw [hnone rfl]
      exact h.idle ⟨rfl, rfl, rfl, rfl, rfl, rfl⟩
  | lose =>
      rw [hnone rfl]
      exact h.idle ⟨rfl, rfl, rfl, rfl, rfl, rfl⟩
  | reopen _ =>
      rw [hnone rfl]
      apply h.idle
      cases role with
      | client => exact ⟨rfl, rfl, rfl, rfl, rfl, rfl⟩
      | server => exact ⟨rfl, rfl, rfl, rfl, rfl, rfl⟩
  | clear =>
      rw [hnone rfl]
      exact h.idle ⟨rfl, rfl, rfl, rfl, rfl, rfl⟩
  | resent =>
      rw [hnone rfl]
      exact h.idle ⟨rfl, rfl, rfl, rfl, rfl, rfl⟩
  | resend _ =>
      rw [hnone rfl]
      exact h.idle ⟨rfl, rfl, rfl, rfl, rfl, rfl⟩

end Steps

/-! ## What is reported -/

/-- The loop over `dc.unacked`. -/
theorem run_resend (role : Role) (s : DataLink) (written rest : List Frame) :
    run (step role) { s with writer := written, phase := .retransmitting rest }
      (List.replicate (rest.length + 1) .resend) =
        some { s with writer := written ++ rest, phase := .idle } := by
  induction rest generalizing written with
  | nil => simp [run, step]
  | cons f rest ih =>
      rw [List.length_cons, List.replicate_succ, run]
      change run (step role)
        { s with writer := written ++ [f], phase := .retransmitting rest } _ = _
      rw [ih, List.append_assoc]
      rfl

theorem resends (role : Role) (s : DataLink) : Resends role s where
  reconnect hphase := by
    refine ⟨{ s with writer := s.unacked, phase := .idle }, ?_, rfl, rfl⟩
    have hclear : step role s .clear =
        some { s with writer := [], phase := .retransmitting s.unacked } := by
      simp only [step, hphase]
    rw [run, hclear]
    exact run_resend role s [] s.unacked
  timer hphase hopen f rest hunacked := by
    simp only [step, hphase, hunacked, hopen, if_true]

/-- A call without a frame returned an error. -/
def Fair (c : Call) : Prop := c.frame = none → c.result < 0

/-- A call is answered wrongly only by a client whose connection is closed. -/
theorem fair_returns_iff (role : Role) (s : CallLog) (l : Step) :
    (∀ c ∈ returns role s.link l, Fair c) ↔ OpenAtCall role s l := by
  cases l with
  | send payload =>
      cases hopen : s.link.isOpen <;> cases role <;>
        simp [returns, OpenAtCall, Fair, closedResult, hopen]
  | keep => simp [returns, OpenAtCall, Fair]
  | _ => simp [returns, OpenAtCall]

/-- The calls of a run are answered fairly exactly when each finds what the step asks for. -/
theorem fair_run_iff {role : Role} {ls : List Step} {s s' : CallLog}
    (hrun : run (CallLog.step role) s ls = some s') :
    (∀ c ∈ s'.returned, Fair c) ↔
      (∀ c ∈ s.returned, Fair c) ∧ Meets (CallLog.step role) (OpenAtCall role) s ls := by
  induction ls generalizing s with
  | nil =>
      obtain rfl : s = s' := by simpa [run] using hrun
      simp [Meets]
  | cons l ls ih =>
      obtain ⟨t, ht, hrest⟩ := run_cons_some hrun
      have hreturned : t.returned = s.returned ++ returns role s.link l := by
        obtain ⟨link, -, rfl⟩ := Option.map_eq_some_iff.mp ht
        rfl
      have hmeets : Meets (CallLog.step role) (OpenAtCall role) s (l :: ls) ↔
          OpenAtCall role s l ∧ Meets (CallLog.step role) (OpenAtCall role) t ls := by
        simp [Meets, ht]
      rw [ih hrest, hreturned, List.forall_mem_append, fair_returns_iff, hmeets, and_assoc]

theorem Filed.honest_iff {role : Role} {s : CallLog} (h : Filed s) :
    Honest role s ↔ ∀ c ∈ s.returned, Fair c := by
  constructor
  · exact Honest.failure
  · intro hfair
    refine ⟨fun c hc hzero => ?_, resends role s.link, hfair⟩
    cases hframe : c.frame with
    | none =>
        have := hfair c hc hframe
        omega
    | some f =>
        have hf : f ∈ s.frames := List.mem_filterMap.mpr ⟨c, hc, hframe⟩
        exact ⟨f, rfl, (h.calls c hc f hframe).2, h.recorded hf⟩

/-- In every run, the results of `wire_write` are honest exactly when each call of the client
finds its connection open. -/
theorem wireWrite_honest_iff (role : Role) (ls : List Step) (s : CallLog)
    (hrun : run (CallLog.step role) {} ls = some s) :
    Honest role s ↔ Meets (CallLog.step role) (OpenAtCall role) {} ls := by
  have hfiled : Filed s := invariant_of_run (fun _ _ _ h => h.step) Filed.init hrun
  rw [hfiled.honest_iff, fair_run_iff hrun]
  simp

/-- A client loses and regains its connection between two calls. -/
theorem wireWrite_honest_iff_between :
    let ls : List Step := [.send [1], .keep, .lose, .reopen, .clear, .resend, .resend, .send [2],
      .keep]
    ∃ s, run (CallLog.step .client) {} ls = some s ∧ s.frames.length = 2 ∧ Honest .client s := by
  intro ls
  have hsome : (run (CallLog.step .client) {} ls).isSome := by decide
  have hcount : (run (CallLog.step .client) {} ls).all fun s => s.frames.length = 2 := by decide
  obtain ⟨s, hrun⟩ := Option.isSome_iff_exists.mp hsome
  rw [hrun, Option.all_some, decide_eq_true_eq] at hcount
  exact ⟨s, hrun, hcount, (wireWrite_honest_iff .client ls s hrun).mpr (by decide)⟩

/-- A call of the client during the outage returns `0`, and the packet is gone. -/
theorem wireWrite_not_honest : ¬ ∀ (role : Role) (ls : List Step) (s : CallLog),
    run (CallLog.step role) {} ls = some s → Honest role s := by
  intro hall
  have hlost := hall .client [.lose, .send [1]]
    { link := { ({} : DataLink) with isOpen := false, passed := [[1]] }
      returned := [⟨[1], 0, none⟩] } rfl
  have hneg := hlost.failure ⟨[1], 0, none⟩ List.mem_cons_self rfl
  exact absurd hneg (by decide)

end PipelineTunnel.Link
