import PipelineTunnel.Link.Model
import Mathlib.Data.List.TakeDrop

/-!
# Acknowledgements across the wrap of the sequence numbers

The frames in `unacked` carry consecutive numbers modulo `2^16`. An ACK names one of them and
removes frames from the front as long as their number, compared as a plain `uint16_t`, is not
above the named one.
-/

namespace PipelineTunnel.Link

open Protocol

/-- The frames are numbered one after the other, as `wire_write` numbers them, beginning with
`first`. -/
def Consecutive (first : UInt16) (fs : List Frame) : Prop :=
  ∀ i f, fs[i]? = some f → f.seq = first + UInt16.ofNat i

/-- The number of the frame at position `i`. -/
theorem toNat_seq {first : UInt16} {fs : List Frame} (h : Consecutive first fs) {i : Nat}
    (hi : i < fs.length) : fs[i].seq.toNat = (first.toNat + i) % 65536 := by
  rw [h i fs[i] (List.getElem?_eq_getElem hi), UInt16.toNat_add, UInt16.toNat_ofNat']
  omega

/-- The frames that an ACK removes are those before the first one it does not cover. -/
theorem receiveAck_unacked_iff (s : DataLink) (ackSeq : UInt16) {m : Nat}
    (hm : m ≤ s.unacked.length) :
    (s.receiveAck ackSeq).unacked = s.unacked.drop m ↔
      s.unacked.findIdx (fun f => !decide (f.seq ≤ ackSeq)) = m := by
  have hle : s.unacked.findIdx (fun f => !decide (f.seq ≤ ackSeq)) ≤ s.unacked.length :=
    List.findIdx_le_length
  rw [DataLink.receiveAck]
  dsimp only
  rw [List.dropWhile_eq_drop_findIdx_not]
  constructor
  · intro hdrop
    have hlength := congrArg List.length hdrop
    rw [List.length_drop, List.length_drop] at hlength
    omega
  · intro hidx
    rw [hidx]

/-- An ACK of the frame at position `k` removes it and the frames before it, and no other,
exactly when neither their numbers nor that of the next frame have wrapped around. -/
theorem ack_exact_iff (s : DataLink) {first : UInt16} (hseq : Consecutive first s.unacked)
    (hsize : s.unacked.length ≤ WIRE_MAX_UNACKED) {k : Nat} {f : Frame}
    (hk : s.unacked[k]? = some f) :
    (s.receiveAck f.seq).unacked = s.unacked.drop (k + 1) ↔
      first.toNat + min (k + 1) (s.unacked.length - 1) < 65536 := by
  obtain ⟨hlt, rfl⟩ := List.getElem?_eq_some_iff.mp hk
  have hmax : WIRE_MAX_UNACKED = 200 := rfl
  have hfirst : first.toNat < 65536 := first.toNat_lt
  have hack := toNat_seq hseq hlt
  have hcovers : ∀ {i : Nat} (hi : i < s.unacked.length),
      s.unacked[i].seq ≤ s.unacked[k].seq ↔
        (first.toNat + i) % 65536 ≤ (first.toNat + k) % 65536 := by
    intro i hi
    rw [UInt16.le_iff_toNat_le, toNat_seq hseq hi, hack]
  rw [receiveAck_unacked_iff s _ (by omega)]
  by_cases hlast : k + 1 = s.unacked.length
  -- Nothing follows the acknowledged frame.
  · rw [hlast, List.findIdx_eq_length]
    constructor
    · intro hall
      have hfront := hall s.unacked[0] (List.getElem_mem _)
      simp only [Bool.not_eq_false', decide_eq_true_iff, hcovers] at hfront
      omega
    · intro hnowrap g hg
      obtain ⟨i, hi, rfl⟩ := List.mem_iff_getElem.mp hg
      simp only [Bool.not_eq_false', decide_eq_true_iff, hcovers]
      omega
  · have hnext : k + 1 < s.unacked.length := by omega
    rw [List.findIdx_eq hnext]
    simp only [Bool.not_eq_true', Bool.not_eq_false', decide_eq_true_iff, decide_eq_false_iff_not,
      hcovers]
    constructor
    · rintro ⟨hkeeps, hremoves⟩
      have hfront := hremoves 0 (by omega)
      omega
    · intro hnowrap
      refine ⟨by omega, fun i hi => ?_⟩
      omega

/-- The second of three frames, far from the wrap. -/
def farLink : DataLink :=
  { unacked := [⟨7, [], 0⟩, ⟨8, [], 1⟩, ⟨9, [], 2⟩] }

theorem consecutive_farLink : Consecutive 7 farLink.unacked := by
  intro i f hf
  match i, hf with
  | 0, hf => cases hf; rfl
  | 1, hf => cases hf; rfl
  | 2, hf => cases hf; rfl

theorem ack_exact_iff_far : (farLink.receiveAck 8).unacked = farLink.unacked.drop 2 :=
  (ack_exact_iff farLink consecutive_farLink (by decide) (k := 1) (f := ⟨8, [], 1⟩) rfl).mpr
    (by decide)

/-- Three frames across the wrap: the ACK of the first removes all of them, and the ACK of the
last removes none. -/
def wrapLink : DataLink :=
  { unacked := [⟨65535, [], 65535⟩, ⟨0, [], 65536⟩, ⟨1, [], 65537⟩] }

theorem ack_not_exact : ¬ ∀ (s : DataLink) (first : UInt16) (k : Nat) (f : Frame),
    Consecutive first s.unacked → s.unacked.length ≤ WIRE_MAX_UNACKED →
      s.unacked[k]? = some f → (s.receiveAck f.seq).unacked = s.unacked.drop (k + 1) := by
  intro hall
  have hseq : Consecutive 65535 wrapLink.unacked := by
    intro i f hf
    match i, hf with
    | 0, hf => cases hf; rfl
    | 1, hf => cases hf; rfl
    | 2, hf => cases hf; rfl
  have hfirst := hall wrapLink 65535 0 ⟨65535, [], 65535⟩ hseq (by decide) rfl
  exact absurd hfirst (by decide)

end PipelineTunnel.Link
