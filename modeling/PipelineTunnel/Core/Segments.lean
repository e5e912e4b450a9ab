import PipelineTunnel.Core.PacketLoop
import Mathlib.Data.List.Induction

/-!
# TCP segmentation of control packets

The receive loop parses its buffer after every read, so the packets it finds must not
depend on where a read ends. A buffer that ends inside the type of a packet is no obstacle:
nothing is left for the length. A buffer that ends inside the length is: `read_varint`
reports the value `0` with the bytes it saw, and `try_parse` takes that for an empty
payload. `InLength` are these buffers.

## Implementation notes

A length of almost `2^64` makes the sum `total` wrap around, and the payload then reaches
beyond the buffer (`Wraps`); no packet that fits into memory has such a length.
-/

namespace PipelineTunnel.Protocol

/-! ## Varints that are cut off -/

/-- The bytes of a varint that has not ended. -/
def Unfinished (bs : Bytes) : Prop := bs.length < 10 ∧ ∀ b ∈ bs, b.toNat &&& 0x80 ≠ 0

instance (bs : Bytes) : Decidable (Unfinished bs) := inferInstanceAs (Decidable (_ ∧ _))

theorem readVarintLoop_unfinished (bs : Bytes) : ∀ (i shift val : Nat), i + bs.length ≤ 10 →
    (∀ b ∈ bs, b.toNat &&& 0x80 ≠ 0) → readVarintLoop i shift val bs = (0, i + bs.length) := by
  induction bs with
  | nil => intro i shift val _ _; rfl
  | cons b bs ih =>
      intro i shift val hle hmore
      rw [List.length_cons] at hle ⊢
      simp only [readVarintLoop]
      rw [if_pos (by omega), if_neg (hmore b List.mem_cons_self),
        ih (i + 1) _ _ (by omega) fun b hb => hmore b (List.mem_cons_of_mem _ hb)]
      exact Prod.ext rfl (by dsimp only; omega)

theorem readVarint_unfinished {bs : Bytes} (h : Unfinished bs) :
    readVarint bs = (0, bs.length) := by
  rw [readVarint, readVarintLoop_unfinished bs 0 0 0 (by have := h.1; omega) h.2, Nat.zero_add]

/-- A varint that has ended is read the same whatever follows, with bytes of its own. -/
theorem readVarintLoop_append (bs ext : Bytes) : ∀ (i shift val : Nat), i ≤ 10 →
    ¬ (i + bs.length < 10 ∧ ∀ b ∈ bs, b.toNat &&& 0x80 ≠ 0) →
    readVarintLoop i shift val (bs ++ ext) = readVarintLoop i shift val bs ∧
      (readVarintLoop i shift val bs).2 ≤ i + bs.length := by
  induction bs with
  | nil =>
      intro i shift val hi hended
      obtain rfl : i = 10 := by
        by_contra hne
        exact hended ⟨by simp only [List.length_nil]; omega, nofun⟩
      refine ⟨?_, Nat.le_refl _⟩
      cases ext with
      | nil => rfl
      | cons b ext => simp [readVarintLoop]
  | cons b bs ih =>
      intro i shift val hi hended
      rw [List.cons_append, List.length_cons]
      simp only [readVarintLoop]
      by_cases hten : i < 10
      · rw [if_pos hten, if_pos hten]
        by_cases hlast : b.toNat &&& 0x80 = 0
        · simp only [if_pos hlast, true_and]
          omega
        · rw [if_neg hlast, if_neg hlast]
          have hrest := ih (i + 1) (shift + 7) (val ||| ((b.toNat &&& 0x7F) <<< shift) % 2 ^ 64)
            (by omega) (by
              rintro ⟨hlt, hmore⟩
              refine hended ⟨by rw [List.length_cons]; omega, ?_⟩
              intro b' hb'
              rcases List.mem_cons.mp hb' with rfl | hb'
              · exact hlast
              · exact hmore b' hb')
          exact ⟨hrest.1, by omega⟩
      · simp only [if_neg hten, true_and]
        omega

theorem readVarint_le (bs : Bytes) : (readVarint bs).2 ≤ bs.length := by
  by_cases h : Unfinished bs
  · rw [readVarint_unfinished h]
  · have hle := (readVarintLoop_append bs [] 0 0 0 (by omega) (by rwa [Nat.zero_add])).2
    rwa [Nat.zero_add] at hle

theorem readVarintLoop_le_ten (bs : Bytes) : ∀ {i : Nat} (shift val : Nat), i ≤ 10 →
    (readVarintLoop i shift val bs).2 ≤ 10 := by
  induction bs with
  | nil => intro i shift val hi; exact hi
  | cons b bs ih =>
      intro i shift val hi
      simp only [readVarintLoop]
      split_ifs with hten
      · exact hten
      · exact ih _ _ hten
      · exact hi

theorem readVarint_le_ten (bs : Bytes) : (readVarint bs).2 ≤ 10 :=
  readVarintLoop_le_ten bs 0 0 (by omega)

theorem readVarintLoop_pos {i : Nat} (shift val : Nat) (b : UInt8) (bs : Bytes) (hi : i < 10) :
    i < (readVarintLoop i shift val (b :: bs)).2 := by
  induction bs generalizing i shift val b with
  | nil =>
      simp only [readVarintLoop, if_pos hi]
      split_ifs <;> simp
  | cons b' bs ih =>
      rw [readVarintLoop]
      simp only [if_pos hi]
      split_ifs with hlast
      · exact Nat.lt_succ_self i
      · by_cases hnext : i + 1 < 10
        · exact Nat.lt_of_succ_lt (ih _ _ b' hnext)
        · simp [readVarintLoop, hnext]

theorem readVarint_pos {bs : Bytes} (h : bs ≠ []) : 0 < (readVarint bs).2 := by
  obtain ⟨b, bs, rfl⟩ := List.exists_cons_of_ne_nil h
  exact readVarintLoop_pos 0 0 b bs (by omega)

/-- The bytes behind the type of the first packet. -/
def afterType (buf : Bytes) : Bytes := buf.drop (readVarint buf).2

/-- The value of the length of the first packet and where its payload begins. -/
def payloadLength (buf : Bytes) : Nat := (readVarint (afterType buf)).1

def payloadOffset (buf : Bytes) : Nat := (readVarint buf).2 + (readVarint (afterType buf)).2

/-- Where the first packet ends, as a sum of the type `size_t`. -/
def packetEnd (buf : Bytes) : Nat := (payloadOffset buf + payloadLength buf) % 2 ^ 64

/-- The type and at least one byte of the length are there. -/
def HasLength (buf : Bytes) : Prop := (readVarint buf).1 ≤ 0xFF ∧ afterType buf ≠ []

/-- The buffer ends inside the length of a packet, behind its first byte. -/
def InLength (buf : Bytes) : Prop := HasLength buf ∧ Unfinished (afterType buf)

/-- The payload reaches beyond the buffer, but the sum of offset and length wraps around. -/
def Wraps (buf : Bytes) : Prop :=
  HasLength buf ∧ buf.length < payloadOffset buf + payloadLength buf ∧
    0 < packetEnd buf ∧ packetEnd buf ≤ buf.length

instance (buf : Bytes) : Decidable (HasLength buf) := inferInstanceAs (Decidable (_ ∧ _))

instance (buf : Bytes) : Decidable (InLength buf) := inferInstanceAs (Decidable (_ ∧ _))

instance (buf : Bytes) : Decidable (Wraps buf) := inferInstanceAs (Decidable (_ ∧ _))

theorem readVarint_eq_zero {bs : Bytes} : (readVarint bs).2 = 0 ↔ bs = [] := by
  constructor
  · intro h0
    by_contra hne
    exact absurd (readVarint_pos hne) (by omega)
  · rintro rfl
    rfl

theorem tryParse_of_hasLength {buf : Bytes} (h : HasLength buf) (hle : packetEnd buf ≤ buf.length) :
    tryParse buf = some (packetEnd buf, ⟨UInt8.ofNat (readVarint buf).1,
      (buf.drop (payloadOffset buf)).take (payloadLength buf)⟩) := by
  have hbuf : buf ≠ [] := by
    rintro rfl
    exact h.2 rfl
  have htype : ¬ ((readVarint buf).2 = 0 ∨ (readVarint buf).1 > 0xFF) := by
    rintro (h0 | hbig)
    · exact hbuf (readVarint_eq_zero.mp h0)
    · exact absurd h.1 (by omega)
  have hlength : ¬ (readVarint (buf.drop (readVarint buf).2)).2 = 0 :=
    fun h0 => h.2 (readVarint_eq_zero.mp h0)
  simp only [tryParse]
  rw [if_neg htype, if_neg hlength]
  exact if_neg (Nat.not_lt.mpr hle)

theorem tryParse_eq_some {buf : Bytes} {n : Nat} {pkt : Packet} (h : tryParse buf = some (n, pkt)) :
    HasLength buf ∧ n = packetEnd buf ∧ packetEnd buf ≤ buf.length := by
  simp only [tryParse] at h
  split_ifs at h with htype hlength hle
  obtain ⟨rfl, -⟩ := Prod.mk.inj (Option.some.inj h)
  refine ⟨⟨by omega, fun hnil => hlength (readVarint_eq_zero.mpr hnil)⟩, rfl, ?_⟩
  exact Nat.not_lt.mp hle

/-! ## What follows the buffer -/

theorem HasLength.ended {buf : Bytes} (h : HasLength buf) : ¬ Unfinished buf := by
  intro hcut
  apply h.2
  rw [afterType, readVarint_unfinished hcut, List.drop_length]

/-- The packets found so far and `recv_buf_`. -/
structure Inbox where
  packets : List Packet := []
  recvBuf : Bytes := []
deriving DecidableEq, Repr

/-- The receive loop with the packets collected in place of the switch. -/
def collect : PacketLoop Inbox where
  recvBuf s := s.recvBuf
  setRecvBuf s buf := { s with recvBuf := buf }
  handle s pkt := { s with packets := s.packets ++ [pkt] }
  done _ := false

/-- The reads one after the other. -/
def feed (reads : List Bytes) : Inbox := reads.foldl collect.receive {}

/-- What a round leaves. -/
def Inbox.taken (s : Inbox) (n : Nat) (pkt : Packet) : Inbox :=
  { packets := s.packets ++ [pkt], recvBuf := s.recvBuf.drop n }

/-- The loop until it stops. -/
def drain (s : Inbox) : Inbox := collect.rounds s.recvBuf.length s

/-- The type, the length and the whole payload of the first packet are there. -/
def Whole (buf : Bytes) : Prop := HasLength buf ∧ 0 < packetEnd buf ∧ packetEnd buf ≤ buf.length

theorem Whole.tryParse {buf : Bytes} (h : Whole buf) :
    ∃ pkt, tryParse buf = some (packetEnd buf, pkt) := ⟨_, tryParse_of_hasLength h.1 h.2.2⟩

theorem whole_of_tryParse {buf : Bytes} {n : Nat} {pkt : Packet}
    (h : tryParse buf = some (n, pkt)) (hpos : 0 < n) : Whole buf ∧ n = packetEnd buf := by
  obtain ⟨hlength, rfl, hle⟩ := tryParse_eq_some h
  exact ⟨⟨hlength, hpos, hle⟩, rfl⟩

/-- What is left of a buffer behind some whole packets. -/
inductive Boundary (buf : Bytes) : Bytes → Prop where
  | start : Boundary buf buf
  | next {rest : Bytes} : Boundary buf rest → Whole rest → Boundary buf (rest.drop (packetEnd rest))

/-- The bytes end at a packet boundary or inside a packet, but not inside a length. -/
def CleanCut (buf : Bytes) : Prop := ∀ rest, Boundary buf rest → ¬ InLength rest ∧ ¬ Wraps rest

theorem Boundary.of_next {buf rest : Bytes} (h : Whole buf)
    (hrest : Boundary (buf.drop (packetEnd buf)) rest) : Boundary buf rest := by
  induction hrest with
  | start => exact .next .start h
  | next _ hwhole ih => exact .next ih hwhole

theorem CleanCut.next {buf : Bytes} {n : Nat} {pkt : Packet} (h : CleanCut buf)
    (hparse : tryParse buf = some (n, pkt)) (hpos : 0 < n) : CleanCut (buf.drop n) := by
  obtain ⟨hwhole, rfl⟩ := whole_of_tryParse hparse hpos
  exact fun rest hrest => h rest (hrest.of_next hwhole)

/-- The first boundary is the buffer itself or one of what follows the first packet. -/
theorem Boundary.cases {buf rest : Bytes} (h : Boundary buf rest) :
    rest = buf ∨ Whole buf ∧ Boundary (buf.drop (packetEnd buf)) rest := by
  induction h with
  | start => exact .inl rfl
  | next _ hwhole ih =>
      rcases ih with rfl | ⟨hfirst, hrest⟩
      · exact .inr ⟨hwhole, .start⟩
      · exact .inr ⟨hfirst, .next hrest hwhole⟩

/-- The inbox after one more read. -/
def Inbox.read (s : Inbox) (data : Bytes) : Inbox := { s with recvBuf := s.recvBuf ++ data }

end PipelineTunnel.Protocol
