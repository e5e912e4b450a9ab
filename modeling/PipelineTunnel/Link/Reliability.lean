import PipelineTunnel.Link.Model
import PipelineTunnel.Lib.StepSystem
import Mathlib.Data.List.TakeWhile

/-!
# What the sequence numbers and ACKs of a data connection guarantee

Sequence numbers have 16 bits, so acceptance is an equality modulo `65536`. The
window of frames kept for retransmission bounds how old a copy in the channel can be:
`Ordered` says that no copy trails the receiver by more than that window, and then the
expected number belongs to the expected frame alone.

An ACK is sent for every frame, also for one that arrives ahead of the expected
number. `Covered` is what holds as long as that does not happen.
-/

namespace PipelineTunnel.Link

open StepSystem Protocol

/-! ## Runs of consecutive frames -/

/-- The frames are consecutive and the last one comes right before `top`. -/
def EndsAt (top : Nat) (l : List Frame) : Prop :=
  ∀ i f, l[i]? = some f → f.ord + (l.length - i) = top

theorem EndsAt.nil (top : Nat) : EndsAt top [] := by
  intro i f h
  simp at h

theorem EndsAt.drop {top : Nat} {l : List Frame} (h : EndsAt top l) (n : Nat) :
    EndsAt top (l.drop n) := by
  intro i f hf
  rw [List.getElem?_drop] at hf
  have hord := h (n + i) f hf
  rw [List.length_drop]
  omega

theorem EndsAt.concat {top : Nat} {l : List Frame} (h : EndsAt top l) {f : Frame}
    (hf : f.ord = top) : EndsAt (top + 1) (l ++ [f]) := by
  intro i g hg
  rw [List.length_append, List.length_singleton]
  rcases Nat.lt_or_ge i l.length with hi | hi
  · rw [List.getElem?_append_left hi] at hg
    have := h i g hg
    omega
  · rw [List.getElem?_append_right hi] at hg
    obtain ⟨hlt, rfl⟩ := List.getElem?_eq_some_iff.mp hg
    rw [List.length_singleton] at hlt
    simp only [List.getElem_singleton, hf]
    omega

theorem EndsAt.mem {top : Nat} {l : List Frame} (h : EndsAt top l) {f : Frame} (hf : f ∈ l) :
    f.ord < top ∧ top ≤ f.ord + l.length := by
  obtain ⟨i, hi, rfl⟩ := List.getElem_of_mem hf
  have := h i _ (List.getElem?_eq_getElem hi)
  omega

/-! ## The numbering -/

/-- The frame carries the payload of its own place in the accepted sequence. -/
def Numbered (accepted : List Bytes) (f : Frame) : Prop :=
  f.seq = UInt16.ofNat f.ord ∧ accepted[f.ord]? = some f.payload

theorem Numbered.append {accepted : List Bytes} {f : Frame} (h : Numbered accepted f)
    (payload : Bytes) : Numbered (accepted ++ [payload]) f := by
  refine ⟨h.1, ?_⟩
  rw [List.getElem?_append_left (List.getElem?_eq_some_iff.mp h.2).1]
  exact h.2

theorem Numbered.lt {accepted : List Bytes} {f : Frame} (h : Numbered accepted f) :
    f.ord < accepted.length :=
  (List.getElem?_eq_some_iff.mp h.2).1

/-- Within the accepted sequence a frame is determined by its place. -/
theorem Numbered.eq {accepted : List Bytes} {f g : Frame} (hf : Numbered accepted f)
    (hg : Numbered accepted g) (h : f.ord = g.ord) : f = g := by
  obtain ⟨fs, fp, fo⟩ := f
  obtain ⟨gs, gp, go⟩ := g
  obtain rfl : fo = go := h
  rw [Frame.mk.injEq]
  exact ⟨hf.1.trans hg.1.symm, Option.some.inj (hf.2.symm.trans hg.2), rfl⟩

theorem ofNat_inj {i j : Nat} (h : UInt16.ofNat i = UInt16.ofNat j) : i % 65536 = j % 65536 := by
  have := congrArg UInt16.toNat h
  rwa [UInt16.toNat_ofNat', UInt16.toNat_ofNat'] at this

theorem ofNat_succ (i : Nat) : UInt16.ofNat i + 1 = UInt16.ofNat (i + 1) := by
  simp

namespace DataLink

/-- The frames on their way, the next to arrive first. -/
def channel (s : DataLink) : List Frame := s.wire ++ s.writer

/-- The frames kept by the sender, with the one about to be kept. -/
def window (s : DataLink) : List Frame := s.unacked ++ s.sending.toList

end DataLink

/-- The invariant of a data connection. -/
structure Ordered (s : DataLink) : Prop where
  sendSeq : s.sendSeq = UInt16.ofNat s.accepted.length
  recvSeq : s.recvSeq = UInt16.ofNat s.dispatched.length
  numbered : ∀ f ∈ s.channel ++ s.window ++ s.dispatched, Numbered s.accepted f
  window : EndsAt s.accepted.length s.window
  size : s.unacked.length ≤ WIRE_MAX_UNACKED
  dispatched : EndsAt s.dispatched.length s.dispatched
  le : s.dispatched.length ≤ s.accepted.length
  spread : s.channel.Pairwise fun x y => x.ord ≤ y.ord + WIRE_MAX_UNACKED
  fresh : ∀ y ∈ s.channel, s.dispatched.length ≤ y.ord + (WIRE_MAX_UNACKED + 1)
  resend : ∀ rest, s.phase = .retransmitting rest → rest ⊆ s.unacked

theorem Ordered.init : Ordered {} := by
  refine ⟨rfl, rfl, ?_, EndsAt.nil 0, ?_, EndsAt.nil 0, ?_, ?_, ?_, ?_⟩ <;>
    simp [DataLink.channel, DataLink.window]

variable {s : DataLink}

theorem Ordered.window_length (h : Ordered s) : s.window.length ≤ WIRE_MAX_UNACKED + 1 := by
  have hsize := h.size
  rw [DataLink.window, List.length_append]
  cases s.sending with
  | none => simp only [Option.toList_none, List.length_nil]; omega
  | some f => simp only [Option.toList_some, List.length_singleton]; omega

/-- A kept frame is at most one window behind the newest one. -/
theorem Ordered.recent (h : Ordered s) {f : Frame} (hf : f ∈ s.window) :
    s.accepted.length ≤ f.ord + (WIRE_MAX_UNACKED + 1) := by
  have := h.window_length
  have := (h.window.mem hf).2
  omega

/-- Writing a kept frame once more keeps the invariant. -/
theorem Ordered.write (h : Ordered s) {f : Frame} (hf : f ∈ s.unacked) : Ordered (s.write f) := by
  have hwin : f ∈ s.window := List.mem_append_left _ hf
  have hrecent := h.recent hwin
  have hchan : (s.write f).channel = s.channel ++ [f] := (List.append_assoc ..).symm
  have hold : ∀ g ∈ s.channel, Numbered s.accepted g := fun g hg =>
    h.numbered g (by simp [hg])
  refine ⟨h.sendSeq, h.recvSeq, ?_, h.window, h.size, h.dispatched, h.le, ?_, ?_, h.resend⟩
  · intro g hg
    apply h.numbered g
    have hg' : g ∈ s.channel ++ [f] ++ s.window ++ s.dispatched := hchan ▸ hg
    simp only [List.mem_append, List.mem_singleton] at hg' hwin ⊢
    rcases hg' with ((hg' | rfl) | hg') | hg'
    · exact Or.inl (Or.inl hg')
    · exact Or.inl (Or.inr hwin)
    · exact Or.inl (Or.inr hg')
    · exact Or.inr hg'
  · rw [hchan, List.pairwise_append]
    refine ⟨h.spread, List.pairwise_singleton _ _, ?_⟩
    intro x hx y hy
    rw [List.mem_singleton.mp hy]
    have := (hold x hx).lt
    omega
  · intro y hy
    rw [hchan] at hy
    rcases List.mem_append.mp hy with hy | hy
    · exact h.fresh y hy
    · rw [List.mem_singleton.mp hy]
      have := h.le
      exact Nat.le_trans this hrecent

/-- Dropping copies from the channel and old frames from the window keeps the
invariant. -/
theorem Ordered.shrink (h : Ordered s) {s' : DataLink} (hsend : s'.sendSeq = s.sendSeq)
    (hrecv : s'.recvSeq = s.recvSeq) (hacc : s'.accepted = s.accepted)
    (hdisp : s'.dispatched = s.dispatched) (hchan : s'.channel.Sublist s.channel)
    {n : Nat} (hwin : s'.window = s.window.drop n)
    (hsize : s'.unacked.length ≤ WIRE_MAX_UNACKED)
    (hres : ∀ rest, s'.phase = .retransmitting rest → rest ⊆ s'.unacked) : Ordered s' := by
  refine ⟨by rw [hsend, hacc, h.sendSeq], by rw [hrecv, hdisp, h.recvSeq], ?_, ?_, hsize, ?_, ?_,
    h.spread.sublist hchan, ?_, hres⟩
  · intro f hf
    rw [hacc]
    apply h.numbered f
    rw [hwin, hdisp] at hf
    simp only [List.mem_append] at hf ⊢
    rcases hf with (hf | hf) | hf
    · exact Or.inl (Or.inl (hchan.subset hf))
    · exact Or.inl (Or.inr (List.mem_of_mem_drop hf))
    · exact Or.inr hf
  · rw [hacc, hwin]
    exact h.window.drop n
  · rw [hdisp]
    exact h.dispatched
  · rw [hdisp, hacc]
    exact h.le
  · intro y hy
    rw [hdisp]
    exact h.fresh y (hchan.subset hy)

/-- A new frame takes the next number and goes to the end of the channel. -/
theorem Ordered.wireWrite (h : Ordered s) (hsending : s.sending = none) (payload : Bytes) :
    Ordered (s.wireWrite payload) := by
  rw [DataLink.wireWrite]
  split
  · have hnew : Numbered (s.accepted ++ [payload])
        ⟨s.sendSeq, payload, s.accepted.length⟩ := by
      refine ⟨h.sendSeq, ?_⟩
      rw [List.getElem?_append_right (Nat.le_refl _), Nat.sub_self]
      rfl
    have hwin : s.window = s.unacked := by
      rw [DataLink.window, hsending, Option.toList_none, List.append_nil]
    generalize hf : (⟨s.sendSeq, payload, s.accepted.length⟩ : Frame) = f at hnew
    have hord : f.ord = s.accepted.length := by rw [← hf]
    have hchan : s.wire ++ (s.writer ++ [f]) = s.channel ++ [f] := (List.append_assoc ..).symm
    constructor
    · rw [List.length_append, List.length_singleton, ← ofNat_succ, ← h.sendSeq]
    · exact h.recvSeq
    · intro g hg
      have hg' : g ∈ s.channel ++ [f] ++ (s.window ++ [f]) ++ s.dispatched := by
        rw [hwin, ← hchan]
        exact hg
      have hold : g ∈ s.channel ++ s.window ++ s.dispatched ∨ g = f := by
        simp only [List.mem_append, List.mem_singleton] at hg' ⊢
        tauto
      rcases hold with hg | rfl
      · exact (h.numbered g hg).append payload
      · exact hnew
    · rw [List.length_append, List.length_singleton]
      exact (hwin ▸ h.window).concat hord
    · exact h.size
    · exact h.dispatched
    · exact Nat.le_trans h.le (List.length_append ▸ Nat.le_add_right _ _)
    · change (s.wire ++ (s.writer ++ [f])).Pairwise _
      rw [hchan, List.pairwise_append]
      refine ⟨h.spread, List.pairwise_singleton _ _, ?_⟩
      intro x hx y hy
      have hlt := (h.numbered x (by simp [hx])).lt
      rw [List.mem_singleton.mp hy, hord]
      omega
    · intro y hy
      have hy' : y ∈ s.channel ++ [f] := hchan ▸ hy
      rcases List.mem_append.mp hy' with hy' | hy'
      · exact h.fresh y hy'
      · have hle := h.le
        rw [List.mem_singleton.mp hy', hord]
        exact Nat.le_trans hle (Nat.le_add_right _ _)
    · exact h.resend
  · exact ⟨h.sendSeq, h.recvSeq, h.numbered, h.window, h.size, h.dispatched, h.le, h.spread,
      h.fresh, h.resend⟩

theorem Ordered.keepUnacked (h : Ordered s) {f : Frame} (hsending : s.sending = some f)
    (hphase : ∀ rest, s.phase ≠ .retransmitting rest) : Ordered (s.keepUnacked f) := by
  have hsize := h.size
  have hmax : WIRE_MAX_UNACKED = 200 := rfl
  have hwin : s.window = s.unacked ++ [f] := by
    rw [DataLink.window, hsending, Option.toList_some]
  by_cases hfull : s.unacked.length ≥ WIRE_MAX_UNACKED
  · refine h.shrink (n := 1) rfl rfl rfl rfl (List.Sublist.refl _) ?_ ?_ ?_
    · rw [hwin, List.drop_append_of_le_length (by omega)]
      simp only [DataLink.keepUnacked, DataLink.window, if_pos hfull, Option.toList_none,
        List.append_nil]
    · simp only [DataLink.keepUnacked, if_pos hfull, List.length_append, List.length_drop,
        List.length_singleton]
      omega
    · intro rest hrest
      exact absurd hrest (hphase rest)
  · refine h.shrink (n := 0) rfl rfl rfl rfl (List.Sublist.refl _) ?_ ?_ ?_
    · rw [hwin, List.drop_zero]
      simp only [DataLink.keepUnacked, DataLink.window, if_neg hfull, Option.toList_none,
        List.append_nil]
    · simp only [DataLink.keepUnacked, if_neg hfull, List.length_append, List.length_singleton]
      omega
    · intro rest hrest
      exact absurd hrest (hphase rest)

/-- The expected number belongs to the expected frame alone. -/
theorem Ordered.ord_eq (h : Ordered s) (hahead : s.accepted.length < s.dispatched.length + 65536)
    {f : Frame} (hf : f ∈ s.channel) (hseq : f.seq = s.recvSeq) : f.ord = s.dispatched.length := by
  have hnum := h.numbered f (by simp [hf])
  have hlt := hnum.lt
  have hfresh := h.fresh f hf
  have hmax : WIRE_MAX_UNACKED = 200 := rfl
  rw [hnum.1, h.recvSeq] at hseq
  have := ofNat_inj hseq
  omega

/-- A frame arrives; the expected number is that of the next frame. -/
theorem Ordered.receiveData_of_next (h : Ordered s) {f : Frame} {rest : List Frame}
    (hwire : s.wire = f :: rest) (hnext : f.seq = s.recvSeq → f.ord = s.dispatched.length) :
    Ordered (DataLink.receiveData { s with wire := rest } f) := by
  have hchan : s.channel = f :: (rest ++ s.writer) := by
    rw [DataLink.channel, hwire, List.cons_append]
  have hf : f ∈ s.channel := hchan ▸ List.mem_cons_self
  have htail : Ordered { s with wire := rest } :=
    h.shrink (n := 0) rfl rfl rfl rfl (hchan ▸ List.sublist_cons_self _ _) rfl h.size h.resend
  simp only [DataLink.receiveData]
  split
  · rename_i hseq
    have hord := hnext hseq
    have hnum := h.numbered f (by simp [hf])
    have hlt := hnum.lt
    refine ⟨htail.sendSeq, ?_, ?_, htail.window, htail.size, ?_, ?_, htail.spread, ?_,
      htail.resend⟩
    · rw [List.length_append, List.length_singleton, ← ofNat_succ, ← h.recvSeq]
    · intro g hg
      rw [← List.append_assoc] at hg
      rcases List.mem_append.mp hg with hg | hg
      · exact htail.numbered g hg
      · rw [List.mem_singleton.mp hg]
        exact hnum
    · rw [List.length_append, List.length_singleton]
      exact h.dispatched.concat hord
    · rw [List.length_append, List.length_singleton]
      exact hord ▸ hlt
    · intro y hy
      rw [List.length_append, List.length_singleton]
      have hspread := h.spread
      rw [hchan, List.pairwise_cons] at hspread
      have := hspread.1 y hy
      omega
  · exact ⟨htail.sendSeq, htail.recvSeq, htail.numbered, htail.window, htail.size,
      htail.dispatched, htail.le, htail.spread, htail.fresh, htail.resend⟩

theorem Ordered.receiveData (h : Ordered s) {f : Frame} {rest : List Frame}
    (hwire : s.wire = f :: rest) (hahead : s.accepted.length < s.dispatched.length + 65536) :
    Ordered (DataLink.receiveData { s with wire := rest } f) := by
  apply h.receiveData_of_next hwire
  apply h.ord_eq hahead
  rw [DataLink.channel, hwire]
  exact List.mem_cons_self

theorem Ordered.receiveAck (h : Ordered s) (hphase : s.phase = .idle) (a : UInt16)
    (acks : List UInt16) : Ordered (DataLink.receiveAck { s with acks := acks } a) := by
  have hdrop : s.unacked.dropWhile (fun f => decide (f.seq ≤ a)) =
      s.unacked.drop (s.unacked.findIdx fun f => !decide (f.seq ≤ a)) :=
    List.dropWhile_eq_drop_findIdx_not
  have hle : s.unacked.findIdx (fun f => !decide (f.seq ≤ a)) ≤ s.unacked.length :=
    List.findIdx_le_length
  generalize s.unacked.findIdx (fun f => !decide (f.seq ≤ a)) = n at hdrop hle
  refine h.shrink (n := n) rfl rfl rfl rfl (List.Sublist.refl _) ?_ ?_ ?_
  · rw [show s.window = s.unacked ++ s.sending.toList from rfl,
      List.drop_append_of_le_length hle, ← hdrop]
    rfl
  · exact Nat.le_trans (List.dropWhile_sublist _).length_le h.size
  · intro rest hrest
    rw [DataLink.receiveAck, hphase] at hrest
    cases hrest

/-- Every step keeps the invariant, as long as the sender is less than one round of
numbers ahead. -/
theorem Ordered.step {role : Role} {l : Step} {s' : DataLink} (h : Ordered s)
    (hahead : s.accepted.length < s.dispatched.length + 65536)
    (hstep : Link.step role s l = some s') : Ordered s' := by
  have hsame : s.window = s.window.drop 0 := rfl
  have hdropWriter : (s.wire ++ []).Sublist s.channel :=
    List.Sublist.append (List.Sublist.refl _) (List.nil_sublist _)
  cases step_moves hstep with
  | send payload hnone => exact h.wireWrite hnone payload
  | keep hsome hphase => exact h.keepUnacked hsome hphase
  | flush hwriter =>
      refine h.shrink rfl rfl rfl rfl ?_ hsame h.size h.resend
      rw [DataLink.channel, DataLink.channel, hwriter, List.append_assoc]
      exact List.Sublist.refl _
  | deliver hwire => exact h.receiveData hwire hahead
  | ack hphase _ => exact h.receiveAck hphase _ _
  | timer hf => exact h.write hf
  | lose => exact h.shrink rfl rfl rfl rfl (List.nil_sublist _) hsame h.size h.resend
  | reopen =>
      cases role with
      | client =>
          refine h.shrink rfl rfl rfl rfl (List.Sublist.refl _) hsame h.size ?_
          intro rest hrest
          cases hrest
      | server => exact h.shrink rfl rfl rfl rfl hdropWriter hsame h.size h.resend
  | clear =>
      refine h.shrink rfl rfl rfl rfl hdropWriter hsame h.size ?_
      intro rest hrest
      obtain rfl := Phase.retransmitting.inj hrest
      exact List.Subset.refl _
  | resent =>
      refine h.shrink rfl rfl rfl rfl (List.Sublist.refl _) hsame h.size ?_
      intro rest hrest
      cases hrest
  | @resend f rest hphase =>
      have hsub := h.resend _ hphase
      have hw := h.write (hsub List.mem_cons_self)
      refine hw.shrink rfl rfl rfl rfl (List.Sublist.refl _) (n := 0) rfl hw.size ?_
      intro rest' hrest
      obtain rfl := Phase.retransmitting.inj hrest
      exact fun g hg => hsub (List.mem_cons_of_mem f hg)

/-! ## In-order delivery -/

/-- The sender is less than one round of sequence numbers ahead of the receiver. -/
def WithinRound (s : DataLink) (_ : Step) : Prop :=
  s.accepted.length < s.dispatched.length + 65536

instance (s : DataLink) (l : Step) : Decidable (WithinRound s l) :=
  inferInstanceAs (Decidable (_ < _))

theorem Ordered.payloads (h : Ordered s) :
    s.dispatched.map Frame.payload = s.accepted.take s.dispatched.length := by
  apply List.ext_getElem?
  intro i
  rw [List.getElem?_map]
  rcases Nat.lt_or_ge i s.dispatched.length with hi | hi
  · have hget := List.getElem?_eq_getElem hi
    have hord := h.dispatched i _ hget
    have hnum := h.numbered _ (List.mem_append_right _ (List.getElem_mem hi))
    rw [hget, List.getElem?_take_of_lt hi, Option.map_some, ← hnum.2]
    congr 1
    omega
  · rw [List.getElem?_eq_none hi, List.getElem?_eq_none]
    · rfl
    · exact Nat.le_trans (List.length_take_le _ _) hi

/-- The dispatched payloads are a prefix of the payloads that `wire_write` numbered:
nothing is duplicated, reordered or skipped, over every interleaving, loss and
reconnect. -/
theorem dispatched_prefix_accepted (role : Role) {ls : List Step} {s : DataLink}
    (hrun : run (step role) {} ls = some s) (hround : Meets (step role) WithinRound {} ls) :
    s.dispatched.map Frame.payload <+: s.accepted := by
  have h : Ordered s :=
    invariant_of_meets (fun _ _ _ h hok hstep => h.step hok hstep) Ordered.init hround hrun
  rw [h.payloads]
  exact List.take_prefix _ _

/-- Two payloads, with a loss and a retransmission of the first between them. -/
theorem dispatched_prefix_accepted_reconnect :
    let ls := [.send [1], .keep, .flush, .lose, .reopen, .clear, .resend, .resend, .flush,
      .deliver, .send [2], .keep, .flush, .deliver]
    (run (step .client) {} ls).map (fun s => s.dispatched.map Frame.payload) = some [[1], [2]] ∧
      ∀ s ∈ run (step .client) {} ls, s.dispatched.map Frame.payload <+: s.accepted :=
  ⟨by decide, fun _ hs => dispatched_prefix_accepted .client hs (by decide)⟩

/-- A payload passed to `wire_write` while the connection is down is dropped, and the
next one is dispatched in its place. -/
theorem passed_not_prefix :
    ∃ ls, Meets (step .client) WithinRound {} ls ∧
      ∃ s ∈ run (step .client) {} ls, ¬ s.dispatched.map Frame.payload <+: s.passed :=
  ⟨[.lose, .send [1], .reopen, .clear, .resend, .send [2], .keep, .flush, .deliver],
    by decide, by decide⟩

/-! ## Acknowledged frames -/

/-- No data frame arrives ahead of the number the receiver waits for. -/
def NotAhead (s : DataLink) (l : Step) : Prop :=
  l = .deliver → ∀ f ∈ s.wire.head?, f.seq ≤ s.recvSeq

instance (s : DataLink) (l : Step) : Decidable (NotAhead s l) :=
  inferInstanceAs (Decidable (_ → _))

/-- Every pending ACK and every acknowledged frame is covered by what the receiver
has dispatched. -/
structure Covered (s : DataLink) : Prop where
  ordered : Ordered s
  acks : ∀ a ∈ s.acks, a.toNat < s.dispatched.length
  acked : ∀ f ∈ s.acked, f ∈ s.dispatched

theorem Covered.init : Covered {} :=
  ⟨Ordered.init, by simp, by simp⟩

/-- Below `65536` frames the sequence number is the place of the frame. -/
theorem Ordered.seq_toNat (h : Ordered s) (hcount : s.accepted.length < 65536) {f : Frame}
    (hf : f ∈ s.channel ++ s.window ++ s.dispatched) : f.seq.toNat = f.ord := by
  have hnum := h.numbered f hf
  have hlt := hnum.lt
  rw [hnum.1, UInt16.toNat_ofNat', Nat.mod_eq_of_lt (by omega)]

/-- The receiver has dispatched exactly the frames before its own count. -/
theorem Ordered.mem_dispatched (h : Ordered s) {f : Frame} (hnum : Numbered s.accepted f)
    (hlt : f.ord < s.dispatched.length) : f ∈ s.dispatched := by
  have hget := List.getElem_mem hlt
  have hord := h.dispatched f.ord _ (List.getElem?_eq_getElem hlt)
  have heq : f = s.dispatched[f.ord] :=
    hnum.eq (h.numbered _ (List.mem_append_right _ hget)) (by omega)
  rw [heq]
  exact hget

/-- An arriving frame that is not ahead is dispatched now or was dispatched before, so
its ACK is covered. -/
theorem Covered.receiveData (h : Covered s) (hcount : s.accepted.length < 65536) {f : Frame}
    {rest : List Frame} (hwire : s.wire = f :: rest) (hle : f.seq ≤ s.recvSeq) :
    Covered (DataLink.receiveData { s with wire := rest } f) := by
  have hord := h.ordered.receiveData hwire (by omega)
  have hle' : f.seq.toNat ≤ s.recvSeq.toNat := hle
  have hrecv : s.recvSeq.toNat = s.dispatched.length := by
    have := h.ordered.le
    rw [h.ordered.recvSeq, UInt16.toNat_ofNat', Nat.mod_eq_of_lt (by omega)]
  refine ⟨hord, ?_, ?_⟩
  · intro a ha
    simp only [DataLink.receiveData] at ha ⊢
    split at ha
    · rename_i hseq
      simp only [if_pos hseq, List.length_append, List.length_singleton]
      rcases List.mem_append.mp ha with ha | ha
      · have := h.acks a ha
        omega
      · rw [List.mem_singleton.mp ha]
        omega
    · rename_i hseq
      simp only [if_neg hseq]
      rcases List.mem_append.mp ha with ha | ha
      · exact h.acks a ha
      · rw [List.mem_singleton.mp ha]
        have hne : f.seq.toNat ≠ s.recvSeq.toNat := fun heq => hseq (UInt16.toNat_inj.mp heq)
        omega
  · intro g hg
    have hg' : g ∈ s.acked := by
      simp only [DataLink.receiveData] at hg
      split at hg <;> exact hg
    have := h.acked g hg'
    simp only [DataLink.receiveData]
    split
    · exact List.mem_append_left _ this
    · exact this

/-- A covered ACK removes only dispatched frames. -/
theorem Covered.receiveAck (h : Covered s) (hcount : s.accepted.length < 65536)
    (hphase : s.phase = .idle) {a : UInt16} {rest : List UInt16} (hacks : s.acks = a :: rest) :
    Covered (DataLink.receiveAck { s with acks := rest } a) := by
  refine ⟨h.ordered.receiveAck hphase a rest, ?_, ?_⟩
  · intro b hb
    exact h.acks b (hacks ▸ List.mem_cons_of_mem a hb)
  · intro f hf
    rcases List.mem_append.mp hf with hf | hf
    · exact h.acked f hf
    · have hpop := List.mem_takeWhile_imp hf
      have hun : f ∈ s.window :=
        List.mem_append_left _ ((List.takeWhile_sublist _).subset hf)
      have hseq := h.ordered.seq_toNat hcount (f := f) (by simp [hun])
      have hcov := h.acks a (hacks ▸ List.mem_cons_self)
      have hpop' : f.seq.toNat ≤ a.toNat := of_decide_eq_true hpop
      exact h.ordered.mem_dispatched (h.ordered.numbered f (by simp [hun])) (by omega)

theorem Covered.step {role : Role} {l : Step} {s' : DataLink} (h : Covered s)
    (hcount : s.accepted.length < 65536) (hnot : NotAhead s l)
    (hstep : Link.step role s l = some s') : Covered s' := by
  have hord := h.ordered.step (by omega) hstep
  cases step_moves hstep with
  | send payload =>
      rw [DataLink.wireWrite] at hord ⊢
      split at hord <;> rename_i hopen
      · rw [if_pos hopen]
        exact ⟨hord, h.acks, h.acked⟩
      · rw [if_neg hopen]
        exact ⟨hord, h.acks, h.acked⟩
  | @deliver f _ hwire => exact h.receiveData hcount hwire (hnot rfl f (by rw [hwire]; rfl))
  | ack hphase hacks => exact h.receiveAck hcount hphase hacks
  | lose => exact ⟨hord, by simp [DataLink.lose], h.acked⟩
  | reopen => cases role <;> exact ⟨hord, h.acks, h.acked⟩
  | keep | flush | timer | clear | resent | resend => exact ⟨hord, h.acks, h.acked⟩

theorem step_accepted_le {role : Role} {l : Step} {s' : DataLink}
    (hstep : step role s l = some s') : s.accepted.length ≤ s'.accepted.length := by
  cases step_moves hstep with
  | send payload =>
      rw [DataLink.wireWrite]
      split
      · simp
      · exact Nat.le_refl _
  | deliver =>
      rw [DataLink.receiveData]
      split <;> exact Nat.le_refl _
  | reopen => cases role <;> exact Nat.le_refl _
  | keep | flush | ack | timer | lose | clear | resent | resend => exact Nat.le_refl _

/-- As long as no frame arrives ahead of the expected number, every frame that an ACK
removes from `unacked` has been dispatched. -/
theorem acked_dispatched (role : Role) {ls : List Step} {s : DataLink}
    (hrun : run (step role) {} ls = some s) (hcount : s.accepted.length < 65536)
    (hnot : Meets (step role) NotAhead {} ls) : ∀ f ∈ s.acked, f ∈ s.dispatched := by
  have h : s.accepted.length < 65536 → Covered s :=
    invariant_of_meets (I := fun s => s.accepted.length < 65536 → Covered s)
      (fun s l s' h hok hstep hlt =>
        have hlt' := Nat.lt_of_le_of_lt (step_accepted_le hstep) hlt
        (h hlt').step hlt' hok hstep)
      (fun _ => Covered.init) hnot hrun
  exact (h hcount).acked

/-- A frame, its loss and its retransmission, acknowledged after its arrival. -/
theorem acked_dispatched_retransmitted :
    let ls := [.send [1], .keep, .flush, .lose, .reopen, .clear, .resend, .resend, .flush,
      .deliver, .ack]
    (run (step .client) {} ls).map (fun s => s.acked.map Frame.payload) = some [[1]] ∧
      ∀ s ∈ run (step .client) {} ls, ∀ f ∈ s.acked, f ∈ s.dispatched :=
  ⟨by decide, fun s hs => acked_dispatched .client hs
    ((by decide : ∀ t ∈ run (step .client) {} _, t.accepted.length < 65536) s hs) (by decide)⟩

/-- After a reconnect of the server the next frame goes out without the lost one before
it; its ACK removes both, and neither has been dispatched. -/
theorem acked_not_dispatched :
    ∃ ls, ∃ s ∈ run (step .server) {} ls,
      s.accepted.length < 65536 ∧ ¬ ∀ f ∈ s.acked, f ∈ s.dispatched :=
  ⟨[.send [1], .keep, .flush, .lose, .reopen, .send [2], .keep, .flush, .deliver, .ack],
    by decide⟩

end PipelineTunnel.Link
