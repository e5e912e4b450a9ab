import PipelineTunnel.Core.Protocol
import Mathlib.Data.FinEnum
import Mathlib.Data.Fintype.Card

/-!
# Reordering control messages

`deliver_control` of `Session` and of `Client`: control frames of one peer are
spread over several connections, so they carry an 8-bit sequence number and the
receiver parks early ones in a table of 256 slots. Both classes run the same
code over their own `apply_control`, which is the parameter here.
-/

namespace PipelineTunnel.Control

variable {σ : Type*}

/-- The receiving half of the control channel together with the state that
`apply_control` acts on. -/
structure Receiver (σ : Type*) where
  app : σ
  expControlSeq : UInt8 := 0
  pendingControl : UInt8 → Packet := fun _ => default
  pendingControlValid : UInt8 → Bool := fun _ => false

variable (applyControl : σ → Packet → σ)

/-- One round of the drain loop. -/
def drainStep (c : Receiver σ) : Receiver σ :=
  { c with
    app := applyControl c.app (c.pendingControl c.expControlSeq)
    pendingControlValid := Function.update c.pendingControlValid c.expControlSeq false
    expControlSeq := c.expControlSeq + 1 }

/-- The drain loop of `deliver_control`, at most `n` rounds. -/
def drain : Nat → Receiver σ → Receiver σ
  | 0, c => c
  | n + 1, c =>
      if c.pendingControlValid c.expControlSeq then drain n (drainStep applyControl c) else c

/-- `deliver_control`; `drain_exit` shows that 256 rounds always reach the exit
of the loop. -/
def deliverControl (c : Receiver σ) (seq : UInt8) (pkt : Packet) : Receiver σ :=
  if seq = c.expControlSeq then
    drain applyControl 256
      { c with app := applyControl c.app pkt, expControlSeq := c.expControlSeq + 1 }
  else
    { c with
      pendingControl := Function.update c.pendingControl seq pkt
      pendingControlValid := Function.update c.pendingControlValid seq true }

/-! ## The drain loop ends -/

/-- The slots whose flag is set. -/
def heldSlots (c : Receiver σ) : Finset UInt8 :=
  Finset.univ.filter fun s => c.pendingControlValid s = true

theorem mem_heldSlots {c : Receiver σ} {s : UInt8} :
    s ∈ heldSlots c ↔ c.pendingControlValid s = true := by
  simp [heldSlots]

/-- A round clears exactly the flag of the slot it applies. -/
theorem heldSlots_drainStep (c : Receiver σ) :
    heldSlots (drainStep applyControl c) = (heldSlots c).erase c.expControlSeq := by
  ext s
  rw [mem_heldSlots, Finset.mem_erase, mem_heldSlots]
  by_cases hs : s = c.expControlSeq
  · simp [drainStep, hs]
  · simp [drainStep, hs]

theorem drain_exit_of_card (n : Nat) (c : Receiver σ) (h : (heldSlots c).card ≤ n) :
    (drain applyControl n c).pendingControlValid (drain applyControl n c).expControlSeq =
      false := by
  induction n generalizing c with
  | zero =>
      have hempty : heldSlots c = ∅ := Finset.card_eq_zero.mp (Nat.le_zero.mp h)
      by_contra hv
      have hmem := mem_heldSlots.mpr (Bool.eq_true_of_not_eq_false hv)
      simp [drain, hempty] at hmem
  | succ n ih =>
      by_cases hv : c.pendingControlValid c.expControlSeq = true
      · simp only [drain, hv, if_true]
        apply ih
        rw [heldSlots_drainStep, Finset.card_erase_of_mem (mem_heldSlots.mpr hv)]
        omega
      · simpa only [drain, if_neg hv] using Bool.eq_false_of_not_eq_true hv

/-- Whatever the table holds, 256 rounds end the loop by its own test. -/
theorem drain_exit (c : Receiver σ) :
    (drain applyControl 256 c).pendingControlValid
      (drain applyControl 256 c).expControlSeq = false := by
  apply drain_exit_of_card
  calc
    (heldSlots c).card ≤ Fintype.card UInt8 := Finset.card_le_univ _
    _ = 256 := by rw [FinEnum.card_eq_fintypeCard.symm]; rfl

/-! ## What every message keeps -/

theorem drain_invariant {P : σ → Prop} (hP : ∀ a pkt, P a → P (applyControl a pkt)) (n : Nat)
    {c : Receiver σ} (hc : P c.app) : P (drain applyControl n c).app := by
  induction n generalizing c with
  | zero => exact hc
  | succ n ih =>
      simp only [drain]
      split_ifs
      · exact ih (hP _ _ hc)
      · exact hc

theorem deliverControl_invariant {P : σ → Prop} (hP : ∀ a pkt, P a → P (applyControl a pkt))
    {c : Receiver σ} (seq : UInt8) (pkt : Packet) (hc : P c.app) :
    P (deliverControl applyControl c seq pkt).app := by
  unfold deliverControl
  split_ifs
  · exact drain_invariant applyControl hP 256 (hP _ _ hc)
  · exact hc

/-! ## Slots and absolute indices -/

/-- The number `send_control` gives to the message of index `i`: the counter is
an `atomic<uint8_t>` that starts at zero. -/
def seqOf (i : Nat) : UInt8 := UInt8.ofNat i

theorem seqOf_eq_iff (i j : Nat) : seqOf i = seqOf j ↔ i % 256 = j % 256 := by
  rw [seqOf, seqOf, ← UInt8.toNat_inj, UInt8.toNat_ofNat', UInt8.toNat_ofNat']

theorem seqOf_succ (i : Nat) : seqOf i + 1 = seqOf (i + 1) := by
  simp [seqOf]

/-- Two indices less than 256 apart share a slot only when they are equal. -/
theorem eq_of_seqOf_eq {i j m : Nat} (h : seqOf i = seqOf j) (hi : m ≤ i) (hj : m ≤ j)
    (hi' : i ≤ m + 255) (hj' : j ≤ m + 255) : i = j := by
  rw [seqOf_eq_iff] at h
  omega

/-- `apply_control` seen only through the packets passed to it. -/
def record (applied : List Packet) (pkt : Packet) : List Packet := applied ++ [pkt]

/-- The receiver with the first `m` messages of `sent` applied and the arrived
ones of a higher index parked in their slots. -/
structure Holds (sent : List Packet) (arrived : List Nat) (m : Nat)
    (c : Receiver (List Packet)) : Prop where
  app_eq : c.app = sent.take m
  le : m ≤ sent.length
  exp_eq : c.expControlSeq = seqOf m
  below : ∀ i < m, i ∈ arrived
  window : ∀ i ∈ arrived, i < sent.length ∧ i ≤ m + 255
  held : ∀ i ∈ arrived, m ≤ i →
    c.pendingControlValid (seqOf i) = true ∧ sent[i]? = some (c.pendingControl (seqOf i))
  flags : ∀ s, c.pendingControlValid s = true → ∃ i ∈ arrived, m ≤ i ∧ s = seqOf i

theorem Holds.init (sent : List Packet) : Holds sent [] 0 { app := [] } where
  app_eq := by simp
  le := Nat.zero_le _
  exp_eq := rfl
  below := by simp
  window := by simp
  held := by simp
  flags := by simp

theorem take_succ_of_getElem? {sent : List Packet} {m : Nat} {pkt : Packet}
    (h : sent[m]? = some pkt) : sent.take (m + 1) = sent.take m ++ [pkt] := by
  rw [List.take_add_one, h]
  rfl

/-- A raised flag under the cursor belongs to the next message itself. -/
theorem Holds.mem_of_flag {sent : List Packet} {arrived : List Nat} {m : Nat}
    {c : Receiver (List Packet)} (h : Holds sent arrived m c)
    (hv : c.pendingControlValid c.expControlSeq = true) : m ∈ arrived := by
  obtain ⟨i, hi, hm, hs⟩ := h.flags _ hv
  rw [h.exp_eq] at hs
  have hw := (h.window i hi).2
  have him : m = i := eq_of_seqOf_eq hs (Nat.le_refl m) hm (by omega) hw
  exact him ▸ hi

/-- A round of the drain loop applies the next message of the sent sequence. -/
theorem Holds.drainStep {sent : List Packet} {arrived : List Nat} {m : Nat}
    {c : Receiver (List Packet)} (h : Holds sent arrived m c)
    (hv : c.pendingControlValid c.expControlSeq = true) :
    Holds sent arrived (m + 1) (drainStep record c) := by
  have hmem := h.mem_of_flag hv
  obtain ⟨-, hpkt⟩ := h.held m hmem (Nat.le_refl m)
  have hne : ∀ i ∈ arrived, m + 1 ≤ i → seqOf i ≠ seqOf m := by
    intro i hi hmi heq
    have := eq_of_seqOf_eq heq (by omega : m ≤ i) (Nat.le_refl m) (h.window i hi).2 (by omega)
    omega
  constructor
  case app_eq =>
    rw [take_succ_of_getElem? hpkt]
    simp [Control.drainStep, record, h.app_eq, h.exp_eq]
  case le =>
    have := (h.window m hmem).1
    omega
  case exp_eq =>
    simp [Control.drainStep, h.exp_eq, seqOf_succ]
  case below =>
    intro i hi
    rcases Nat.lt_succ_iff_lt_or_eq.mp hi with hlt | rfl
    · exact h.below i hlt
    · exact hmem
  case window =>
    intro i hi
    have := h.window i hi
    omega
  case held =>
    intro i hi hmi
    have hs := hne i hi hmi
    simpa [Control.drainStep, h.exp_eq, hs] using h.held i hi (by omega)
  case flags =>
    intro s hs
    have hsm : s ≠ seqOf m := by
      intro heq
      simp [Control.drainStep, h.exp_eq, heq] at hs
    obtain ⟨i, hi, hmi, rfl⟩ := h.flags s (by simpa [Control.drainStep, h.exp_eq, hsm] using hs)
    refine ⟨i, hi, ?_, rfl⟩
    have : i ≠ m := fun heq => hsm (congrArg seqOf heq)
    omega

theorem Holds.drain {sent : List Packet} {arrived : List Nat} (n : Nat) {m : Nat}
    {c : Receiver (List Packet)} (h : Holds sent arrived m c) :
    ∃ m', m ≤ m' ∧ Holds sent arrived m' (drain record n c) := by
  induction n generalizing m c with
  | zero => exact ⟨m, Nat.le_refl m, h⟩
  | succ n ih =>
      by_cases hv : c.pendingControlValid c.expControlSeq = true
      · obtain ⟨m', hle, hm'⟩ := ih (h.drainStep hv)
        exact ⟨m', by omega, by simpa only [Control.drain, hv, if_true] using hm'⟩
      · exact ⟨m, Nat.le_refl m, by simpa only [Control.drain, if_neg hv] using h⟩

/-- Between two deliveries the next expected message has not arrived yet. -/
structure Settled (sent : List Packet) (arrived : List Nat)
    (c : Receiver (List Packet)) : Prop where
  holds : Holds sent arrived c.app.length c
  waiting : c.app.length ∉ arrived

theorem Holds.length_app {sent : List Packet} {arrived : List Nat} {m : Nat}
    {c : Receiver (List Packet)} (h : Holds sent arrived m c) : c.app.length = m := by
  rw [h.app_eq, List.length_take]
  exact min_eq_left h.le

theorem Settled.init (sent : List Packet) : Settled sent [] { app := [] } :=
  ⟨Holds.init sent, by simp⟩

/-- The message of index `i` arrives at `deliver_control`. -/
def arrive (sent : List Packet) (c : Receiver (List Packet)) (i : Nat) :
    Receiver (List Packet) :=
  deliverControl record c (seqOf i) (sent.getD i default)

/-- The expected message is applied, and after it everything parked behind it. -/
theorem Settled.arrive_next {sent : List Packet} {arrived : List Nat}
    {c : Receiver (List Packet)} (h : Settled sent arrived c) (hlt : c.app.length < sent.length) :
    Settled sent (c.app.length :: arrived) (arrive sent c c.app.length) := by
  obtain ⟨hh, hwait⟩ := h
  generalize hm : c.app.length = m at *
  have hpkt : sent[m]? = some (sent.getD m default) := by
    simp [List.getD, List.getElem?_eq_getElem hlt]
  have hnext : Holds sent (m :: arrived) (m + 1)
      { c with
        app := record c.app (sent.getD m default), expControlSeq := c.expControlSeq + 1 } := by
    constructor
    · rw [take_succ_of_getElem? hpkt]
      simp [record, hh.app_eq]
    · omega
    · simp [hh.exp_eq, seqOf_succ]
    · intro i hi
      rcases Nat.lt_succ_iff_lt_or_eq.mp hi with hi | rfl
      · exact List.mem_cons_of_mem _ (hh.below i hi)
      · exact List.mem_cons_self
    · intro i hi
      rcases List.mem_cons.mp hi with rfl | hi
      · omega
      · have := hh.window i hi
        omega
    · intro i hi hmi
      rcases List.mem_cons.mp hi with rfl | hi
      · omega
      · exact hh.held i hi (by omega)
    · intro s hs
      obtain ⟨i, hi, hmi, rfl⟩ := hh.flags s hs
      refine ⟨i, List.mem_cons_of_mem _ hi, ?_, rfl⟩
      have : i ≠ m := fun heq => hwait (heq ▸ hi)
      omega
  obtain ⟨m', hle, hdrain⟩ := hnext.drain 256
  have harr : arrive sent c m = drain record 256
      { c with
        app := record c.app (sent.getD m default), expControlSeq := c.expControlSeq + 1 } := by
    simp [arrive, deliverControl, hh.exp_eq]
  have hlen := hdrain.length_app
  have hexit := drain_exit record
    { c with app := record c.app (sent.getD m default), expControlSeq := c.expControlSeq + 1 }
  rw [harr]
  refine ⟨by rw [hlen]; exact hdrain, ?_⟩
  rw [hlen]
  intro hmem
  have hflag := (hdrain.held m' hmem (Nat.le_refl m')).1
  rw [← hdrain.exp_eq, hexit] at hflag
  exact Bool.false_ne_true hflag

/-- An early message is parked in its own slot. -/
theorem Settled.arrive_early {sent : List Packet} {arrived : List Nat} {i : Nat}
    {c : Receiver (List Packet)} (h : Settled sent arrived c) (hi : i < sent.length)
    (hgt : c.app.length < i) (hnew : i ∉ arrived) (hwin : i ≤ c.app.length + 255) :
    Settled sent (i :: arrived) (arrive sent c i) := by
  obtain ⟨hh, hwait⟩ := h
  have hslot : seqOf i ≠ c.expControlSeq := by
    rw [hh.exp_eq]
    intro heq
    have := eq_of_seqOf_eq heq (by omega : c.app.length ≤ i) (Nat.le_refl _) hwin (by omega)
    omega
  have happ : (arrive sent c i).app = c.app := by simp [arrive, deliverControl, hslot]
  have hother : ∀ j ∈ arrived, c.app.length ≤ j → seqOf j ≠ seqOf i := by
    intro j hj hmj heq
    have := eq_of_seqOf_eq heq hmj (by omega) (hh.window j hj).2 hwin
    exact hnew (this ▸ hj)
  have hwait' : c.app.length ∉ i :: arrived := by
    rw [List.mem_cons]
    rintro (heq | hmem)
    · omega
    · exact hwait hmem
  refine ⟨?_, by rw [happ]; exact hwait'⟩
  rw [happ]
  constructor
  · rw [happ]; exact hh.app_eq
  · exact hh.le
  · simpa [arrive, deliverControl, hslot] using hh.exp_eq
  · intro j hj
    exact List.mem_cons_of_mem _ (hh.below j hj)
  · intro j hj
    rcases List.mem_cons.mp hj with rfl | hj
    · exact ⟨hi, hwin⟩
    · exact hh.window j hj
  · intro j hj hmj
    rcases List.mem_cons.mp hj with rfl | hj
    · simp [arrive, deliverControl, hslot, List.getD, List.getElem?_eq_getElem hi]
    · have hne := hother j hj hmj
      simpa [arrive, deliverControl, hslot, hne] using hh.held j hj hmj
  · intro s hs
    by_cases hsi : s = seqOf i
    · exact ⟨i, List.mem_cons_self, by omega, hsi⟩
    · obtain ⟨j, hj, hmj, rfl⟩ := hh.flags s (by simpa [arrive, deliverControl, hslot, hsi] using hs)
      exact ⟨j, List.mem_cons_of_mem _ hj, hmj, rfl⟩

/-- One arrival, in order or early. -/
theorem Settled.arrive {sent : List Packet} {arrived : List Nat} {i : Nat}
    {c : Receiver (List Packet)} (h : Settled sent arrived c) (hi : i < sent.length)
    (hnew : i ∉ arrived) (hwin : i ≤ c.app.length + 255) :
    Settled sent (i :: arrived) (arrive sent c i) := by
  have hge : c.app.length ≤ i := by
    by_contra hlt
    exact hnew (h.holds.below i (by omega))
  rcases Nat.lt_or_eq_of_le hge with hgt | heq
  · exact h.arrive_early hi hgt hnew hwin
  · subst heq
    exact h.arrive_next hi

/-- Feed the messages of `sent` to a fresh receiver in the given order. -/
def deliverAll (sent : List Packet) (arrivals : List Nat) : Receiver (List Packet) :=
  arrivals.foldl (arrive sent) { app := [] }

/-- Every arriving index is at most 255 above the receiver's next expected one. -/
def WithinReach (sent : List Packet) (arrivals : List Nat) : Prop :=
  ∀ pre i post, arrivals = pre ++ i :: post → i ≤ (deliverAll sent pre).app.length + 255

theorem settled_deliverAll (sent : List Packet) (arrivals : List Nat)
    (hnodup : arrivals.Nodup) (hlt : ∀ i ∈ arrivals, i < sent.length)
    (hreach : WithinReach sent arrivals) :
    Settled sent arrivals.reverse (deliverAll sent arrivals) := by
  induction arrivals using List.reverseRecOn with
  | nil => exact Settled.init sent
  | append_singleton pre i ih =>
      have hi : i ∉ pre := by
        intro hmem
        exact (List.nodup_append.mp hnodup).2.2 i hmem i (by simp) rfl
      have hpre := ih (List.nodup_append.mp hnodup).1
        (fun j hj => hlt j (List.mem_append_left _ hj))
        (fun pre' j post heq => hreach pre' j (post ++ [i]) (by simp [heq]))
      rw [List.reverse_append, deliverAll, List.foldl_append]
      exact hpre.arrive (hlt i (by simp)) (by simpa using hi) (hreach pre i [] rfl)

/-- Control messages are applied in sending order, each once, under every arrival
order that stays within reach; and the drain loop ends from every table. -/
theorem deliverControl_in_order (sent : List Packet) (arrivals : List Nat)
    (hnodup : arrivals.Nodup) (hlt : ∀ i ∈ arrivals, i < sent.length)
    (hreach : WithinReach sent arrivals) :
    (deliverAll sent arrivals).app <+: sent ∧
    (∀ i ∈ arrivals, i < (deliverAll sent arrivals).app.length ∨
      (deliverAll sent arrivals).pendingControlValid (seqOf i) = true ∧
        sent[i]? = some ((deliverAll sent arrivals).pendingControl (seqOf i))) ∧
    ((∀ i < sent.length, i ∈ arrivals) →
      (deliverAll sent arrivals).app = sent ∧
        ∀ s, (deliverAll sent arrivals).pendingControlValid s = false) ∧
    ∀ c : Receiver (List Packet),
      (drain record 256 c).pendingControlValid (drain record 256 c).expControlSeq = false := by
  obtain ⟨hh, hwait⟩ := settled_deliverAll sent arrivals hnodup hlt hreach
  have hmem : ∀ i, i ∈ arrivals.reverse ↔ i ∈ arrivals := fun i => List.mem_reverse
  refine ⟨hh.app_eq ▸ List.take_prefix _ _, ?_, ?_, drain_exit record⟩
  · intro i hi
    rcases Nat.lt_or_ge i (deliverAll sent arrivals).app.length with hlt' | hge
    · exact Or.inl hlt'
    · exact Or.inr (hh.held i ((hmem i).mpr hi) hge)
  · intro hall
    have hlen : (deliverAll sent arrivals).app.length = sent.length := by
      by_contra hne
      have hle := hh.le
      exact hwait ((hmem _).mpr (hall _ (by omega)))
    refine ⟨by rw [hh.app_eq, hlen, List.take_length], ?_⟩
    intro s
    by_contra hs
    obtain ⟨i, hi, hge, -⟩ := hh.flags s (Bool.eq_true_of_not_eq_false hs)
    have := (hh.window i hi).1
    omega

/-- Three messages arriving as second, third, first. -/
theorem deliverControl_in_order_three :
    (deliverAll [⟨0x30, [1]⟩, ⟨0x51, [2]⟩, ⟨0x54, []⟩] [1, 2, 0]).app =
      [⟨0x30, [1]⟩, ⟨0x51, [2]⟩, ⟨0x54, []⟩] := by
  refine ((deliverControl_in_order [⟨0x30, [1]⟩, ⟨0x51, [2]⟩, ⟨0x54, []⟩] [1, 2, 0]
    (by decide) (by decide) ?_).2.2.1 (by decide)).1
  intro pre i post heq
  have hi : i ∈ [1, 2, 0] := heq ▸ by simp
  simp only [List.mem_cons, List.not_mem_nil, or_false] at hi
  omega

end PipelineTunnel.Control
