import PipelineTunnel.Link.Reliability

/-!
# A data connection that is never lost

As long as the connection is not lost, the channel continues what was dispatched: new frames come in
order, and between them come copies of earlier ones. No bound on the number of frames under way is
needed then, and an empty channel means that everything was dispatched.
-/

namespace PipelineTunnel.Link

open StepSystem Protocol

/-- Behind the first `n` frames come those up to `top`, and copies of earlier ones in between. -/
def Continuing (top : Nat) : Nat → List Frame → Prop
  | n, [] => n = top
  | n, f :: fs => (f.ord = n ∧ Continuing top (n + 1) fs) ∨ (f.ord < n ∧ Continuing top n fs)

variable {top n : Nat} {f : Frame} {fs : List Frame}

theorem Continuing.copy (h : Continuing top n fs) (hf : f.ord < top) :
    Continuing top n (fs ++ [f]) := by
  induction fs generalizing n with
  | nil =>
      obtain rfl : n = top := h
      exact .inr ⟨hf, rfl⟩
  | cons g fs ih =>
      rcases h with ⟨hg, h⟩ | ⟨hg, h⟩
      · exact .inl ⟨hg, ih h⟩
      · exact .inr ⟨hg, ih h⟩

theorem Continuing.next (h : Continuing top n fs) (hf : f.ord = top) :
    Continuing (top + 1) n (fs ++ [f]) := by
  induction fs generalizing n with
  | nil =>
      obtain rfl : n = top := h
      exact .inl ⟨hf, rfl⟩
  | cons g fs ih =>
      rcases h with ⟨hg, h⟩ | ⟨hg, h⟩
      · exact .inl ⟨hg, ih h⟩
      · exact .inr ⟨hg, ih h⟩

/-- The state of a connection that was never lost. -/
structure Lossless (s : DataLink) : Prop where
  ordered : Ordered s
  continuing : Continuing s.accepted.length s.dispatched.length s.channel
  isOpen : s.isOpen = true
  phase : s.phase = .idle
  accepted : s.accepted = s.passed

theorem Lossless.init : Lossless {} := ⟨Ordered.init, rfl, rfl, rfl, rfl⟩

variable {s s' : DataLink}

/-- The frame with the expected number is the next one. -/
theorem Lossless.ord_eq (h : Lossless s) {rest : List Frame} (hwire : s.wire = f :: rest)
    (hseq : f.seq = s.recvSeq) : f.ord = s.dispatched.length := by
  have hchannel : s.channel = f :: (rest ++ s.writer) := by
    rw [DataLink.channel, hwire, List.cons_append]
  have hf : f ∈ s.channel := hchannel ▸ List.mem_cons_self
  have hcont := h.continuing
  rw [hchannel] at hcont
  rcases hcont with ⟨hord, -⟩ | ⟨hlt, -⟩
  · exact hord
  · have hnum := h.ordered.numbered f (by simp [hf])
    have hfresh := h.ordered.fresh f hf
    have hmax : WIRE_MAX_UNACKED = 200 := rfl
    rw [hnum.1, h.ordered.recvSeq] at hseq
    have := ofNat_inj hseq
    omega

theorem Lossless.receiveData (h : Lossless s) {rest : List Frame} (hwire : s.wire = f :: rest) :
    Lossless (DataLink.receiveData { s with wire := rest } f) := by
  have hordered := h.ordered.receiveData_of_next hwire (h.ord_eq hwire)
  have hchannel : s.channel = f :: (rest ++ s.writer) := by
    rw [DataLink.channel, hwire, List.cons_append]
  have hcont := h.continuing
  rw [hchannel] at hcont
  by_cases hseq : f.seq = s.recvSeq
  · have hord := h.ord_eq hwire hseq
    rw [DataLink.receiveData, if_pos hseq] at hordered ⊢
    refine ⟨hordered, ?_, h.isOpen, h.phase, h.accepted⟩
    rcases hcont with ⟨-, hcont⟩ | ⟨hlt, -⟩
    · rw [List.length_append]
      exact hcont
    · omega
  · rw [DataLink.receiveData, if_neg hseq] at hordered ⊢
    refine ⟨hordered, ?_, h.isOpen, h.phase, h.accepted⟩
    rcases hcont with ⟨hord, -⟩ | ⟨-, hcont⟩
    · -- the next frame has the expected number
      refine absurd ?_ hseq
      have hf : f ∈ s.channel := hchannel ▸ List.mem_cons_self
      rw [(h.ordered.numbered f (by simp [hf])).1, hord, h.ordered.recvSeq]
    · exact hcont

theorem Lossless.step {role : Role} {l : Step} (h : Lossless s) (hl : l ≠ .lose)
    (hstep : Link.step role s l = some s') : Lossless s' := by
  obtain ⟨hordered, hcont, hopen, hphase, haccepted⟩ := h
  have hwrite : ∀ f : Frame, (s.write f).channel = s.channel ++ [f] := fun f =>
    (List.append_assoc ..).symm
  cases l with
  | send payload =>
      simp only [Link.step] at hstep
      split at hstep
      · cases hstep
      · rename_i hnone
        cases hstep
        have hsent := hordered.wireWrite (by simpa using hnone) payload
        rw [DataLink.wireWrite, if_pos hopen] at hsent ⊢
        refine ⟨hsent, ?_, hopen, hphase, by rw [haccepted]⟩
        have hnext := hcont.next (f := ⟨s.sendSeq, payload, s.accepted.length⟩) rfl
        rw [← hwrite] at hnext
        rw [List.length_append]
        exact hnext
  | keep =>
      cases step_moves hstep with
      | keep hsending hnot =>
          exact ⟨hordered.keepUnacked hsending hnot, hcont, hopen, hphase, haccepted⟩
  | flush =>
      cases step_moves hstep with
      | @flush f fs hwriter =>
          have hsame : s.wire ++ [f] ++ fs = s.channel := by
            rw [DataLink.channel, hwriter, List.append_assoc]
            rfl
          refine ⟨hordered.shrink (n := 0) rfl rfl rfl rfl ?_ rfl hordered.size hordered.resend,
            ?_, hopen, hphase, haccepted⟩
          · rw [DataLink.channel, hsame]
          · rw [DataLink.channel, hsame]
            exact hcont
  | deliver =>
      cases step_moves hstep with
      | deliver hwire => exact Lossless.receiveData ⟨hordered, hcont, hopen, hphase, haccepted⟩ hwire
  | ack =>
      cases step_moves hstep with
      | ack _ _ => exact ⟨hordered.receiveAck hphase _ _, hcont, hopen, hphase, haccepted⟩
  | timer =>
      cases step_moves hstep with
      | @timer f hf =>
          refine ⟨hordered.write hf, ?_, hopen, hphase, haccepted⟩
          rw [hwrite]
          exact hcont.copy (hordered.numbered f (by simp [DataLink.window, hf])).lt
  | lose => exact absurd rfl hl
  | reopen => simp [Link.step, hphase, hopen] at hstep
  | clear => simp [Link.step, hphase] at hstep
  | resend => simp [Link.step, hphase] at hstep

theorem Lossless.of_run {role : Role} {ls : List Step} (hloss : .lose ∉ ls)
    (hrun : run (Link.step role) {} ls = some s) : Lossless s := by
  refine invariant_of_labels (p := fun l => l ≠ .lose) (fun s l s' h hl hstep => h.step hl hstep)
    .init ?_ hrun
  rintro l hl rfl
  exact hloss hl

theorem Lossless.dispatched (h : Lossless s) : s.dispatched.map Frame.payload <+: s.passed := by
  rw [h.ordered.payloads, h.accepted]
  exact List.take_prefix _ _

theorem Lossless.dispatched_of_empty (h : Lossless s) (hempty : s.channel = []) :
    s.dispatched.map Frame.payload = s.passed := by
  have hcont := h.continuing
  rw [hempty] at hcont
  rw [h.ordered.payloads, (hcont : s.dispatched.length = s.accepted.length), List.take_length,
    h.accepted]

end PipelineTunnel.Link
