import PipelineTunnel.Link.Outage
import Mathlib.Data.List.Sublists

/-!
# When a data connection recovers

Behind a loss the receiver waits for one frame. Either the sender can still produce that frame and
all later ones, from the window it keeps or from what is on its way, and then the reconnect of the
client delivers everything; or it cannot, and then nothing that happens later delivers another
frame.

## Implementation notes

`firstKept` is the place of the oldest frame of the window. Only the frames between the receiver's
place and `firstKept` depend on the channel, and there they must be in order, since the receiver
discards what is ahead.
-/

namespace PipelineTunnel.Link

open StepSystem Protocol

namespace DataLink

/-- The place of the oldest frame that the sender keeps. -/
def firstKept (s : DataLink) : Nat := s.accepted.length - s.window.length

/-- The channel brings the receiver to `top`. -/
def Supplied (s : DataLink) (top : Nat) : Prop :=
  (List.range' s.dispatched.length (top - s.dispatched.length)).Sublist
    (s.channel.map Frame.ord)

/-- The frames that the receiver waits for and the sender has given up are on their way, in
order. -/
def Recoverable (s : DataLink) : Prop := s.Supplied s.firstKept

instance (s : DataLink) : Decidable s.Recoverable :=
  inferInstanceAs (Decidable (List.Sublist _ _))

end DataLink

open DataLink

variable {role : Role} {s s' : DataLink}

theorem Ordered.firstKept_le (h : Ordered s) {f : Frame} (hf : f ∈ s.unacked) :
    s.firstKept ≤ f.ord := by
  have := (h.window.mem (List.mem_append_left s.sending.toList hf)).2
  rw [firstKept]
  omega

theorem Ordered.window_le (h : Ordered s) : s.window.length ≤ s.accepted.length := by
  cases hw : s.window with
  | nil => exact Nat.zero_le _
  | cons f rest =>
      have := h.window 0 f (by rw [hw]; rfl)
      rw [hw] at this
      omega

/-! ## What is lost stays lost -/

theorem sublist_of_concat {α : Type*} {l l' : List α} {a : α} (h : l.Sublist (l' ++ [a]))
    (ha : a ∉ l) : l.Sublist l' := by
  obtain ⟨l₁, l₂, rfl, h₁, h₂⟩ := List.sublist_append_iff.mp h
  have hnil : l₂ = [] := by
    rcases List.sublist_singleton.mp h₂ with rfl | rfl
    · rfl
    · exact absurd (List.mem_append_right l₁ List.mem_cons_self) ha
  rw [hnil, List.append_nil]
  exact h₁

/-- A window that lost frames at its front begins later. -/
theorem firstKept_le_of_window (haccepted : s'.accepted = s.accepted)
    (hwindow : s'.window.length ≤ s.window.length) : s.firstKept ≤ s'.firstKept := by
  rw [firstKept, firstKept, haccepted]
  omega

/-- What a step does to the receiver's place, the window and the channel. -/
inductive Supply (s s' : DataLink) : Prop where
  | shrink : s'.dispatched = s.dispatched → s'.channel.Sublist s.channel → Supply s s'
  | write (f : Frame) : s'.dispatched = s.dispatched → s'.channel = s.channel ++ [f] →
      s'.firstKept ≤ f.ord → Supply s s'
  | dispatch (f : Frame) (rest : List Frame) : s.channel = f :: rest → s'.channel = rest →
      f.seq = s.recvSeq → s'.dispatched = s.dispatched ++ [f] → Supply s s'

theorem supply (h : Ordered s) {l : Step} (hstep : Link.step role s l = some s') :
    s.firstKept ≤ s'.firstKept ∧ Supply s s' := by
  have hsame : s.firstKept ≤ s.firstKept := Nat.le_refl _
  have hle := h.window_le
  cases step_moves hstep with
  | send payload hnone =>
      rw [wireWrite]
      split
      · have hkept : (s.accepted ++ [payload]).length -
            (s.unacked ++ (some (⟨s.sendSeq, payload, s.accepted.length⟩ : Frame)).toList).length =
              s.firstKept := by
          rw [firstKept, window, hnone]
          simp only [List.length_append, List.length_singleton, Option.toList_some,
            Option.toList_none, List.length_nil]
          omega
        refine ⟨hkept.ge, .write ⟨s.sendSeq, payload, s.accepted.length⟩ rfl ?_ ?_⟩
        · exact (List.append_assoc ..).symm
        · refine hkept.le.trans ?_
          exact Nat.sub_le _ _
      · exact ⟨hsame, .shrink rfl (List.Sublist.refl _)⟩
  | @keep f hsome _ =>
      refine ⟨firstKept_le_of_window rfl ?_, .shrink rfl (List.Sublist.refl _)⟩
      simp only [window, keepUnacked, hsome, Option.toList_some, Option.toList_none,
        List.length_append, List.length_singleton, List.length_nil]
      split
      · rw [List.length_drop]
        omega
      · exact Nat.le_refl _
  | @flush f fs hwriter =>
      refine ⟨hsame, .shrink rfl ?_⟩
      rw [channel, channel, hwriter, List.append_assoc]
      exact List.Sublist.refl _
  | @deliver f fs hwire =>
      have hchannel : s.channel = f :: (fs ++ s.writer) := by
        rw [channel, hwire, List.cons_append]
      rw [receiveData]
      split
      · rename_i hseq
        exact ⟨hsame, .dispatch f _ hchannel rfl hseq rfl⟩
      · exact ⟨hsame, .shrink rfl (hchannel ▸ List.sublist_cons_self _ _)⟩
  | @ack a rest _ _ =>
      refine ⟨firstKept_le_of_window rfl ?_, .shrink rfl (List.Sublist.refl _)⟩
      have := (List.dropWhile_sublist (fun f : Frame => decide (f.seq ≤ a))
        (l := s.unacked)).length_le
      simp only [window, receiveAck, List.length_append]
      omega
  | @timer f hf => exact ⟨hsame, .write f rfl (List.append_assoc ..).symm (h.firstKept_le hf)⟩
  | lose => exact ⟨hsame, .shrink rfl (List.nil_sublist _)⟩
  | reopen =>
      cases role with
      | client => exact ⟨hsame, .shrink rfl (List.Sublist.refl _)⟩
      | server =>
          exact ⟨hsame, .shrink rfl ((List.Sublist.refl _).append (List.nil_sublist _))⟩
  | clear => exact ⟨hsame, .shrink rfl ((List.Sublist.refl _).append (List.nil_sublist _))⟩
  | resent => exact ⟨hsame, .shrink rfl (List.Sublist.refl _)⟩
  | @resend f rest hphase =>
      have hf := h.resend _ hphase List.mem_cons_self
      exact ⟨hsame, .write f rfl (List.append_assoc ..).symm (h.firstKept_le hf)⟩

theorem range'_sub_cons {n top : Nat} (h : n < top) :
    List.range' n (top - n) = n :: List.range' (n + 1) (top - (n + 1)) := by
  rw [show top - n = top - (n + 1) + 1 by omega, List.range'_succ]

/-- No step supplies what was not supplied, below the window. -/
theorem supplied_of_step (h : Ordered s)
    (hround : s'.dispatched ≠ s.dispatched → s.accepted.length < s.dispatched.length + 65536)
    {l : Step} {top : Nat} (htop : top ≤ s.firstKept) (hstep : Link.step role s l = some s')
    (hsup : s'.Supplied top) : s.Supplied top := by
  obtain ⟨hkept, hsupply⟩ := supply h hstep
  rw [Supplied] at hsup ⊢
  cases hsupply with
  | shrink hsame hchannel =>
      rw [hsame] at hsup
      exact hsup.trans (hchannel.map _)
  | write f hsame hchannel hord =>
      rw [hsame, hchannel, List.map_append] at hsup
      apply sublist_of_concat hsup
      rw [List.mem_range'_1]
      omega
  | dispatch f rest hchannel hrest hseq hnew =>
      have hord := h.ord_eq (hround (by simp [hnew])) (hchannel ▸ List.mem_cons_self) hseq
      rw [hnew, List.length_append, List.length_singleton, hrest] at hsup
      rcases Nat.lt_or_ge s.dispatched.length top with hlt | hge
      · rw [range'_sub_cons hlt, hchannel, List.map_cons, hord]
        exact hsup.cons_cons _
      · rw [show top - s.dispatched.length = 0 by omega]
        exact List.nil_sublist _

/-- A continuation of the run without new packets, which leaves the payloads as they are. -/
def Continues (role : Role) (s s' : DataLink) : Prop :=
  ∃ ls, (∀ payload, .send payload ∉ ls) ∧ run (step role) s ls = some s'

theorem Continues.refl (s : DataLink) : Continues role s s := ⟨[], by simp, rfl⟩

theorem Continues.trans {s₁ s₂ s₃ : DataLink} (h : Continues role s₁ s₂)
    (h' : Continues role s₂ s₃) : Continues role s₁ s₃ := by
  obtain ⟨ls, hls, hrun⟩ := h
  obtain ⟨ms, hms, hrun'⟩ := h'
  refine ⟨ls ++ ms, ?_, run_append hrun hrun'⟩
  intro payload hmem
  rcases List.mem_append.mp hmem with hmem | hmem
  · exact hls payload hmem
  · exact hms payload hmem

theorem Continues.single {l : Step} (hsend : ∀ payload, l ≠ .send payload)
    (hstep : step role s l = some s') : Continues role s s' := by
  refine ⟨[l], fun payload hmem => ?_, by simp only [run, hstep]⟩
  exact hsend payload (List.mem_singleton.mp hmem).symm

/-- No step but a `wire_write` accepts anything, and at most one frame is dispatched. -/
theorem moves_dispatched {l : Step} (hmoves : Moves role s l s') (hsend : ∀ data, l ≠ .send data) :
    s'.accepted = s.accepted ∧ (s'.dispatched = s.dispatched ∨
      l = .deliver ∧ ∃ f, s'.dispatched = s.dispatched ++ [f]) := by
  cases hmoves with
  | send payload => exact absurd rfl (hsend payload)
  | @deliver f =>
      rw [DataLink.receiveData]
      split
      · exact ⟨rfl, .inr ⟨rfl, f, rfl⟩⟩
      · exact ⟨rfl, .inl rfl⟩
  | reopen => cases role <;> exact ⟨rfl, .inl rfl⟩
  | keep | flush | ack | timer | lose | clear | resent | resend => exact ⟨rfl, .inl rfl⟩

/-- What a continuation keeps. -/
theorem Continues.ordered (h : Ordered s) (hround : s.accepted.length < s.dispatched.length + 65536)
    (hcont : Continues role s s') :
    Ordered s' ∧ s'.accepted = s.accepted ∧ s.dispatched.length ≤ s'.dispatched.length := by
  obtain ⟨ls, hsend, hrun⟩ := hcont
  refine invariant_of_labels (p := fun l => ∀ payload, l ≠ .send payload)
    (I := fun t => Ordered t ∧ t.accepted = s.accepted ∧ s.dispatched.length ≤ t.dispatched.length)
    ?_ ⟨h, rfl, Nat.le_refl _⟩ ?_ hrun
  · rintro t l t' ⟨ht, haccepted, hle⟩ hl hstep
    have hround' : t.accepted.length < t.dispatched.length + 65536 := by
      rw [haccepted]
      omega
    obtain ⟨hsame, hnew⟩ := moves_dispatched (step_moves hstep) hl
    refine ⟨ht.step hround' hstep, hsame.trans haccepted, hle.trans ?_⟩
    rcases hnew with heq | ⟨-, f, heq⟩
    · rw [heq]
    · rw [heq, List.length_append]
      exact Nat.le_add_right _ _
  · rintro l hl payload rfl
    exact hsend payload hl

/-- The sender is as it was, and the receiver is no further behind. -/
structure SameSender (s s' : DataLink) : Prop where
  isOpen : s'.isOpen = s.isOpen
  unacked : s'.unacked = s.unacked
  sending : s'.sending = s.sending
  phase : s'.phase = s.phase
  accepted : s'.accepted = s.accepted
  dispatched : s.dispatched.length ≤ s'.dispatched.length

theorem SameSender.trans {s₁ s₂ s₃ : DataLink} (h : SameSender s₁ s₂) (h' : SameSender s₂ s₃) :
    SameSender s₁ s₃ :=
  ⟨h'.isOpen.trans h.isOpen, h'.unacked.trans h.unacked, h'.sending.trans h.sending,
    h'.phase.trans h.phase, h'.accepted.trans h.accepted, h.dispatched.trans h'.dispatched⟩

theorem continues_flush (s : DataLink) :
    Continues role s { s with writer := [], wire := s.wire ++ s.writer } := by
  obtain ⟨writer, hwriter⟩ : ∃ writer, s.writer = writer := ⟨_, rfl⟩
  induction writer generalizing s with
  | nil =>
      rw [hwriter, List.append_nil]
      exact hwriter ▸ .refl s
  | cons f fs ih =>
      have hstep : step role s .flush = some { s with writer := fs, wire := s.wire ++ [f] } := by
        simp only [step, hwriter]
      apply (Continues.single (l := .flush) (by rintro payload ⟨⟩) hstep).trans
      have hrest := ih { s with writer := fs, wire := s.wire ++ [f] } rfl
      rw [hwriter]
      simpa using hrest

theorem sameSender_receiveData (s : DataLink) (f : Frame) (rest : List Frame) :
    SameSender s (DataLink.receiveData { s with wire := rest } f) := by
  rw [DataLink.receiveData]
  split
  · exact ⟨rfl, rfl, rfl, rfl, rfl, by simp⟩
  · exact ⟨rfl, rfl, rfl, rfl, rfl, Nat.le_refl _⟩

/-- The next frame of the channel brings the receiver nearer, or is not needed. -/
theorem supplied_receiveData (h : Ordered s)
    (hround : s.accepted.length < s.dispatched.length + 65536) {f : Frame} {rest : List Frame}
    (hwire : s.wire = f :: rest) {top : Nat} (hsup : s.Supplied top) :
    (DataLink.receiveData { s with wire := rest } f).Supplied top := by
  have hchannel : s.channel = f :: (rest ++ s.writer) := by rw [channel, hwire, List.cons_append]
  have hf : f ∈ s.channel := hchannel ▸ List.mem_cons_self
  rw [Supplied, hchannel, List.map_cons] at hsup
  rw [DataLink.receiveData]
  split
  · rename_i hseq
    have hord := h.ord_eq hround hf hseq
    rw [Supplied]
    simp only [List.length_append, List.length_singleton]
    rcases Nat.lt_or_ge s.dispatched.length top with hlt | hge
    · rw [range'_sub_cons hlt, hord] at hsup
      exact List.cons_sublist_cons.mp hsup
    · rw [show top - (s.dispatched.length + 1) = 0 by omega]
      exact List.nil_sublist _
  · rename_i hseq
    rcases Nat.lt_or_ge s.dispatched.length top with hlt | hge
    · rw [range'_sub_cons hlt] at hsup
      rw [Supplied, range'_sub_cons hlt]
      apply hsup.of_cons_of_ne
      rintro hord
      apply hseq
      rw [(h.numbered f (by simp [hf])).1, h.recvSeq, hord]
    · rw [Supplied]
      simp only [show top - s.dispatched.length = 0 by omega]
      exact List.nil_sublist _

/-- Everything in the channel arrives. -/
theorem continues_drain (h : Ordered s) (hround : s.accepted.length < s.dispatched.length + 65536)
    {top : Nat} (hsup : s.Supplied top) :
    ∃ s', Continues role s s' ∧ Ordered s' ∧ SameSender s s' ∧ s'.channel = [] ∧
      top ≤ s'.dispatched.length := by
  have hflushed : Ordered { s with writer := [], wire := s.wire ++ s.writer } := by
    refine h.shrink (n := 0) rfl rfl rfl rfl ?_ rfl h.size h.resend
    rw [channel, channel, List.append_nil]
  have hsup' : { s with writer := [], wire := s.wire ++ s.writer }.Supplied top := by
    rw [Supplied, channel, List.append_nil]
    exact hsup
  suffices hgo : ∀ (wire : List Frame) (s : DataLink), Ordered s →
      s.accepted.length < s.dispatched.length + 65536 → s.Supplied top → s.writer = [] →
      s.wire = wire → ∃ s', Continues role s s' ∧ Ordered s' ∧ SameSender s s' ∧ s'.channel = [] ∧
        top ≤ s'.dispatched.length by
    obtain ⟨s', hcont, hs', hsame, hempty, htop⟩ := hgo _ _ hflushed hround hsup' rfl rfl
    refine ⟨s', (continues_flush s).trans hcont, hs', ?_, hempty, htop⟩
    exact ⟨hsame.isOpen, hsame.unacked, hsame.sending, hsame.phase, hsame.accepted,
      hsame.dispatched⟩
  intro wire
  induction wire with
  | nil =>
      intro s h hround hsup hwriter hwire
      have hempty : s.channel = [] := by rw [channel, hwire, hwriter, List.append_nil]
      refine ⟨s, .refl s, h, ⟨rfl, rfl, rfl, rfl, rfl, Nat.le_refl _⟩, hempty, ?_⟩
      rw [Supplied, hempty, List.map_nil, List.sublist_nil, List.range'_eq_nil_iff] at hsup
      omega
  | cons f rest ih =>
      intro s h hround hsup hwriter hwire
      have hstep : step role s .deliver = some (DataLink.receiveData { s with wire := rest } f) := by
        simp only [step, hwire]
      have hsame := sameSender_receiveData s f rest
      have hnext := h.receiveData hwire hround
      have hwriter' : (DataLink.receiveData { s with wire := rest } f).writer = [] := by
        rw [DataLink.receiveData]
        split <;> exact hwriter
      have hwire' : (DataLink.receiveData { s with wire := rest } f).wire = rest := by
        rw [DataLink.receiveData]
        split <;> rfl
      have hround' := hsame.dispatched
      obtain ⟨s', hcont, hs', hsame', hempty, htop⟩ := ih _ hnext
        (by rw [hsame.accepted]; omega) (supplied_receiveData h hround hwire hsup) hwriter' hwire'
      exact ⟨s', (Continues.single (l := .deliver) (by rintro payload ⟨⟩) hstep).trans hcont, hs',
        hsame.trans hsame', hempty, htop⟩

theorem EndsAt.map_ord {top : Nat} {l : List Frame} (h : EndsAt top l) :
    l.map Frame.ord = List.range' (top - l.length) l.length := by
  apply List.ext_getElem
  · simp
  · intro i hi hi'
    have hlt : i < l.length := by simpa using hi
    have hfirst := h 0 _ (List.getElem?_eq_getElem (Nat.zero_lt_of_lt hlt))
    have hplace := h i _ (List.getElem?_eq_getElem hlt)
    rw [List.getElem_map, List.getElem_range']
    omega

/-- The kept frames are consecutive. -/
theorem map_unacked (h : Ordered s) :
    s.unacked.map Frame.ord = List.range' s.firstKept s.unacked.length := by
  have hwindow := h.window.map_ord
  rw [window, List.map_append, List.length_append, ← List.range'_append_1] at hwindow
  have hunacked := (List.append_inj hwindow (by simp)).1
  rw [hunacked, firstKept, window, List.length_append]

theorem continues_resend {rest : List Frame} (hphase : s.phase = .retransmitting rest) :
    Continues role s { s with writer := s.writer ++ rest, phase := .idle } := by
  refine ⟨List.replicate (rest.length + 1) .resend, by simp, ?_⟩
  have hrun := run_resend role s s.writer rest
  rw [← hphase] at hrun
  exact hrun

/-- `dc.writer.clear()` and the loop over `dc.unacked`. -/
theorem continues_opened (hphase : s.phase = .opened) :
    Continues role s { s with writer := s.unacked, phase := .idle } := by
  have hclear : step role s .clear =
      some { s with writer := [], phase := .retransmitting s.unacked } := by
    simp only [step, hphase]
  exact (Continues.single (l := .clear) (by rintro payload ⟨⟩) hclear).trans (continues_resend rfl)

/-- The event loop leaves the reconnect it is in. -/
theorem continues_idle (role : Role) (s : DataLink) :
    ∃ writer, Continues role s { s with writer := writer, phase := .idle } := by
  cases hphase : s.phase with
  | idle => exact ⟨s.writer, hphase ▸ .refl s⟩
  | opened => exact ⟨s.unacked, continues_opened hphase⟩
  | retransmitting rest => exact ⟨s.writer ++ rest, continues_resend hphase⟩

/-- The client's connection is lost, if it is not already, and comes back. -/
theorem continues_reopened (hidle : s.phase = .idle) :
    ∃ wire acks, Continues .client s
      { s with isOpen := true, writer := s.unacked, wire := wire, acks := acks } := by
  have hback : ∀ t : DataLink, t.phase = .idle → t.isOpen = false →
      Continues .client t { t with isOpen := true, writer := t.unacked } := by
    intro t hphase hopen
    have hreopen : step .client t .reopen = some (t.reopen .client) := by
      simp only [step, hphase, hopen]
      rfl
    apply (Continues.single (l := .reopen) (by rintro payload ⟨⟩) hreopen).trans
    have hresent : Continues .client (t.reopen .client)
        { t.reopen .client with writer := t.unacked, phase := .idle } := continues_opened rfl
    rw [DataLink.reopen] at hresent ⊢
    exact hphase ▸ hresent
  cases hopen : s.isOpen with
  | false => exact ⟨s.wire, s.acks, hback s hidle hopen⟩
  | true =>
      have hlose : step .client s .lose = some s.lose := by simp only [step, hidle, hopen, if_true]
      exact ⟨[], [], (Continues.single (l := .lose) (by rintro payload ⟨⟩) hlose).trans
        (hback s.lose hidle rfl)⟩

/-- A reconnect delivers the frames that the client keeps, unless one before them is missing. -/
theorem continues_reconnect (h : Ordered s)
    (hround : s.accepted.length < s.dispatched.length + 65536) (hidle : s.phase = .idle)
    (hkept : s.firstKept ≤ s.dispatched.length) :
    ∃ s', Continues .client s s' ∧ s'.unacked = s.unacked ∧ s'.sending = s.sending ∧
      s'.phase = .idle ∧ s.firstKept + s.unacked.length ≤ s'.dispatched.length := by
  obtain ⟨wire, acks, hreopened⟩ := continues_reopened hidle
  obtain ⟨hordered, -, -⟩ := hreopened.ordered h hround
  have hsup : { s with isOpen := true, writer := s.unacked, wire := wire, acks := acks }.Supplied
      (s.firstKept + s.unacked.length) := by
    rw [Supplied, channel, List.map_append]
    apply List.Sublist.trans _ (List.sublist_append_right _ _)
    rw [map_unacked h]
    obtain ⟨k, hk⟩ := Nat.exists_eq_add_of_le hkept
    simp only [hk]
    rcases Nat.le_total k s.unacked.length with hle | hle
    · have hsplit := List.range'_append_1 (s := s.firstKept) (m := k) (n := s.unacked.length - k)
      rw [Nat.add_sub_cancel' hle] at hsplit
      rw [← hsplit, show s.firstKept + s.unacked.length - (s.firstKept + k) =
        s.unacked.length - k by omega]
      exact List.sublist_append_right _ _
    · rw [show s.firstKept + s.unacked.length - (s.firstKept + k) = 0 by omega]
      exact List.nil_sublist _
  obtain ⟨s', hdrain, -, hsame, -, htop⟩ := continues_drain hordered hround hsup
  exact ⟨s', hreopened.trans hdrain, hsame.unacked, hsame.sending, hsame.phase.trans hidle, htop⟩

/-- Everything is delivered when no call of `wire_write` is between its halves. -/
theorem continues_kept (h : Ordered s)
    (hround : s.accepted.length < s.dispatched.length + 65536) (hidle : s.phase = .idle)
    (hkept : s.firstKept ≤ s.dispatched.length) (hsending : s.sending = none) :
    ∃ s', Continues .client s s' ∧ s.accepted.length ≤ s'.dispatched.length := by
  obtain ⟨s', hcont, -, -, -, htop⟩ := continues_reconnect h hround hidle hkept
  refine ⟨s', hcont, ?_⟩
  have hle := h.window_le
  rw [firstKept] at htop
  rw [window, hsending, Option.toList_none, List.append_nil] at htop hle
  omega

theorem continues_all (h : Ordered s)
    (hround : s.accepted.length < s.dispatched.length + 65536) (hrec : s.Recoverable) :
    ∃ s', Continues .client s s' ∧ s.accepted.length ≤ s'.dispatched.length := by
  -- what is on its way first, since the reconnect clears it
  obtain ⟨s₁, hdrain, hs₁, hsame, -, htop⟩ :
      ∃ s', Continues .client s s' ∧ _ := continues_drain h hround hrec
  obtain ⟨writer, hidle⟩ := continues_idle .client s₁
  have hround₁ : s₁.accepted.length < s₁.dispatched.length + 65536 := by
    have := hsame.dispatched
    rw [hsame.accepted]
    omega
  obtain ⟨hs₂, -, -⟩ := hidle.ordered hs₁ hround₁
  have hkept : firstKept { s₁ with writer := writer, phase := .idle } ≤ s₁.dispatched.length := by
    have heq : firstKept { s₁ with writer := writer, phase := .idle } = s.firstKept := by
      simp only [firstKept, window, hsame.accepted, hsame.unacked, hsame.sending]
    rw [heq]
    exact htop
  have hfront := hdrain.trans hidle
  cases hsending : s₁.sending with
  | none =>
      obtain ⟨s', hcont, hall⟩ := continues_kept hs₂ hround₁ rfl hkept hsending
      exact ⟨s', hfront.trans hcont, hsame.accepted ▸ hall⟩
  | some f =>
      -- the frames before `f` are delivered before one of them may make room for it
      obtain ⟨s₃, hreconnect, hunacked, hsending₃, hidle₃, htop₃⟩ :=
        continues_reconnect hs₂ hround₁ rfl hkept
      obtain ⟨hs₃, haccepted₃, hle₃⟩ := hreconnect.ordered hs₂ hround₁
      have hsome : s₃.sending = some f := hsending₃.trans hsending
      have hkeep : step .client s₃ .keep = some (s₃.keepUnacked f) := by
        simp only [step, hsome, hidle₃]
      have hcont₃ := hreconnect.trans (Continues.single (l := .keep) (by rintro payload ⟨⟩) hkeep)
      obtain ⟨hs₄, haccepted₄, hle₄⟩ := hcont₃.ordered hs₂ hround₁
      have hkept₄ : (s₃.keepUnacked f).firstKept ≤ (s₃.keepUnacked f).dispatched.length := by
        have hwindow : firstKept { s₁ with writer := writer, phase := .idle } =
            s₁.accepted.length - (s₁.unacked.length + 1) := by
          rw [firstKept, window, hsending]
          simp
        have hlength : s₃.accepted.length = s₁.accepted.length := congrArg List.length haccepted₃
        have hle : s₁.unacked.length + 1 ≤ s₁.accepted.length := by
          have := hs₁.window_le
          rw [window, hsending] at this
          simpa using this
        have hmax : Protocol.WIRE_MAX_UNACKED = 200 := rfl
        rw [hwindow] at htop₃
        simp only [firstKept, window, keepUnacked, Option.toList_none, List.append_nil]
        split
        · rename_i hfull
          rw [hunacked] at hfull
          simp only [hunacked, hlength, List.length_append, List.length_drop,
            List.length_singleton] at htop₃ ⊢
          omega
        · simp only [hunacked, hlength, List.length_append, List.length_singleton] at htop₃ ⊢
          omega
      have hround₄ : (s₃.keepUnacked f).accepted.length <
          (s₃.keepUnacked f).dispatched.length + 65536 := by
        rw [haccepted₄]
        exact Nat.lt_of_lt_of_le hround₁ (Nat.add_le_add_right hle₄ _)
      obtain ⟨s', hcont, hall⟩ := continues_kept hs₄ hround₄ hidle₃ hkept₄ rfl
      refine ⟨s', (hfront.trans hcont₃).trans hcont, ?_⟩
      rw [haccepted₄] at hall
      exact hsame.accepted ▸ hall

/-! ## Nothing is left -/

/-- The connection is open, everything has arrived, and no `wire_write` is between its halves. -/
structure Ready (s : DataLink) : Prop where
  isOpen : s.isOpen = true
  sending : s.sending = none
  arrived : s.dispatched.length = s.accepted.length

theorem recoverable_of_kept (h : s.firstKept ≤ s.dispatched.length) : s.Recoverable := by
  rw [Recoverable, Supplied, Nat.sub_eq_zero_of_le h]
  exact List.nil_sublist _

theorem Ready.recoverable (h : Ready s) : s.Recoverable := by
  apply recoverable_of_kept
  rw [h.arrived]
  exact Nat.sub_le _ _

/-- The next packet is kept, so it is not lost. -/
theorem Ready.send (h : Ready s) {payload : Bytes} (hstep : step role s (.send payload) = some s') :
    s'.Recoverable ∧ s'.accepted.length = s'.dispatched.length + 1 := by
  cases step_moves hstep with
  | send _ _ =>
      rw [wireWrite, if_pos h.isOpen]
      constructor
      · apply recoverable_of_kept
        simp only [firstKept, window, write, List.length_append, List.length_singleton,
          Option.toList_some, h.arrived]
        omega
      · simp only [write, List.length_append, List.length_singleton, h.arrived]

/-- A connection that can recover gets ready for the next packet. -/
theorem continues_ready (h : Ordered s)
    (hround : s.accepted.length < s.dispatched.length + 65536) (hrec : s.Recoverable) :
    ∃ s', Continues .client s s' ∧ Ready s' := by
  obtain ⟨s₁, hall, hle⟩ := continues_all h hround hrec
  obtain ⟨hs₁, haccepted, -⟩ := hall.ordered h hround
  have harrived : s₁.dispatched.length = s₁.accepted.length := by
    have := hs₁.le
    rw [haccepted] at this ⊢
    omega
  obtain ⟨writer, hidle⟩ := continues_idle .client s₁
  -- the second half of `wire_write`
  obtain ⟨s₂, hkept, hphase, hsending, harrived₂⟩ : ∃ s₂, Continues .client s s₂ ∧
      s₂.phase = .idle ∧ s₂.sending = none ∧ s₂.dispatched.length = s₂.accepted.length := by
    have hfront := hall.trans hidle
    cases hsome : s₁.sending with
    | none => exact ⟨_, hfront, rfl, hsome, harrived⟩
    | some f =>
        have hkeep : step .client { s₁ with writer := writer, phase := .idle } .keep =
            some (keepUnacked { s₁ with writer := writer, phase := .idle } f) := by
          simp only [step, hsome]
        exact ⟨_, hfront.trans (.single (l := .keep) (by rintro payload ⟨⟩) hkeep), rfl, rfl,
          harrived⟩
  cases hopen : s₂.isOpen with
  | true => exact ⟨s₂, hkept, hopen, hsending, harrived₂⟩
  | false =>
      have hreopen : step .client s₂ .reopen = some (s₂.reopen .client) := by
        simp only [step, hphase, hopen]
        rfl
      exact ⟨_, hkept.trans (.single (l := .reopen) (by rintro payload ⟨⟩) hreopen), rfl, hsending,
        harrived₂⟩

/-! ## Every run -/

/-- The first frame is lost with its connection, and the second one overtakes its
retransmission. -/
def overtakenRun : List Step :=
  [.send [1], .keep, .flush, .lose, .reopen, .send [2], .keep, .flush, .deliver]

/-- The ACK of the second frame takes both out of the window, and the connection is lost again. -/
def forgottenRun : List Step := overtakenRun ++ [.clear, .resend, .resend, .resend, .ack, .lose]

end PipelineTunnel.Link
