import PipelineTunnel.Core.ParseBounds
import PipelineTunnel.Wire.Recovery

/-!
# What the readers look at

The loops of `register_data_connection_reader` make sure that a frame is complete before they
handle it, but only some branches make sure that it is long enough for what they read. A
control frame of one byte and a short acknowledgement lead both readers behind the frame; the
server's dump of a data frame subtracts three from the length before anyone tests it.

## Implementation notes

An access is an index of `read_buf`; a frame begins with its length at `read_offset`. What the
handlers get is a copy, and the copy counts as read even where the state of the session would
drop the packet. `TRACE_ON` is a parameter. Behind the end of `read_buf` there is nothing in
the model: for a control frame of one byte the parser's accesses are those inside the buffer.
-/

namespace PipelineTunnel.Wire

open Protocol
open Server (wireVarint WIRE_DATA WIRE_HEARTBEAT_PING WIRE_HEARTBEAT_PONG WIRE_SHUTDOWN_WR
  WIRE_SHUTDOWN_WR_ACK WIRE_CONTROL WIRE_DATA_ACK)

/-- A difference of the type `size_t`. -/
structure Difference where
  minuend : Nat
  subtrahend : Nat
deriving DecidableEq, Repr

def Difference.value (d : Difference) : Nat := (d.minuend + 2 ^ 64 - d.subtrahend) % 2 ^ 64

/-- No underflow. -/
def Difference.Exact (d : Difference) : Prop := d.subtrahend ≤ d.minuend

instance (d : Difference) : Decidable d.Exact := inferInstanceAs (Decidable (_ ≤ _))

theorem Difference.Exact.value_eq {d : Difference} (h : d.Exact) (hlt : d.minuend < 2 ^ 64) :
    d.value = d.minuend - d.subtrahend := by
  have : d.subtrahend ≤ d.minuend := h
  rw [value, show d.minuend + 2 ^ 64 - d.subtrahend = d.minuend - d.subtrahend + 2 ^ 64 by omega,
    Nat.add_mod_right, Nat.mod_eq_of_lt (by omega)]

/-- A complete frame: the reader that comes to it, the position behind its length, and its
length. -/
structure FrameAt where
  reader : Reader
  pos : Nat
  val : Nat

/-- The header that a round of the loop decodes, when the frame is complete. -/
def Reader.frameAt (r : Reader) : Option FrameAt :=
  let ptr := r.unread
  if ptr.length < 1 then none
  else
    let (pos, val, shift) := wireVarint ptr
    if pos ≥ 10 ∨ shift ≥ 56 then none
    else if pos > ptr.length ∨ pos + val > ptr.length ∨ val < 1 then none
    else some ⟨r, pos, val⟩

/-- The frames that the loop handles, in at most as many rounds. -/
def Reader.framesLoop (role : Role) : Nat → Reader → List FrameAt
  | 0, _ => []
  | fuel + 1, r =>
      match r.frameAt with
      | none => []
      | some f =>
          f :: match r.handle role f.pos f.val with
            | some (r', true) => framesLoop role fuel r'
            | _ => []

def Reader.frames (role : Role) (r : Reader) : List FrameAt :=
  r.framesLoop role (r.unread.length + 1)

namespace FrameAt

variable (f : FrameAt)

/-- `ptr + pos` as an index of `read_buf`. -/
def base : Nat := f.reader.readOffset + f.pos

def type : Option UInt8 := f.reader.unread[f.pos]?

/-- `val - 2`, the length for `try_parse`. -/
def packetSize : Difference := ⟨f.val, 2⟩

/-- `val - 3`, the length of the payload. -/
def payloadSize : Difference := ⟨f.val, 3⟩

/-- The number of a data frame. -/
def seq : Option UInt16 :=
  match f.reader.unread[f.pos + 1]?, f.reader.unread[f.pos + 2]? with
  | some lo, some hi => some (lo.toUInt16 ||| (hi.toUInt16 <<< 8))
  | _, _ => none

/-- The dump of the server in front of the data branch. -/
def dataDump (traceOn : Bool) : List Nat :=
  (if traceOn then [f.base + 1, f.base + 2] else []) ++
    List.range' (f.base + 3) (min 64 f.payloadSize.value)

/-- The two dumps of a protocol violation: from the frame on, and in front of it. -/
def violationDump : List Nat :=
  let off := f.reader.readOffset
  List.range' off (min 64 f.reader.unread.length) ++ List.range' (off - min 32 off) (min 32 off)

/-- The accesses of a control frame. -/
def controlReads : List Nat :=
  (f.base + 1) ::
    (tryParseReads ((f.reader.unread.drop (f.pos + 2)).take f.packetSize.value)).map
      fun i => f.base + 2 + i

/-- The accesses of the data branch, behind the dump. -/
def dataReads : List Nat :=
  if f.val < 3 then []
  else [f.base + 1, f.base + 2] ++
    if f.seq = some f.reader.recvSeq then List.range' (f.base + 3) f.payloadSize.value else []

/-- The accesses behind the type byte. -/
def bodyReads (traceOn : Bool) (role : Role) (type : UInt8) : List Nat :=
  if type = WIRE_HEARTBEAT_PING ∨ type = WIRE_HEARTBEAT_PONG then []
  else if type = role.shutdownType then if f.val < 2 then [] else [f.base + 1]
  else if type = role.skippedType then []
  else if type = WIRE_CONTROL then f.controlReads
  else if type = WIRE_DATA_ACK then [f.base + 1, f.base + 2]
  else if type > WIRE_DATA_ACK then f.violationDump
  else (if role = .server then f.dataDump traceOn else []) ++ f.dataReads

/-- The lengths that are passed on. -/
def lengths (role : Role) (type : UInt8) : List Difference :=
  if type = WIRE_CONTROL then [f.packetSize]
  else if type = WIRE_DATA then
    (if role = .server then [f.payloadSize] else []) ++
      if f.val < 3 then [] else [f.payloadSize]
  else []

/-- Every access lies inside the frame and no length wraps around. -/
def Inside (traceOn : Bool) (role : Role) : Prop :=
  ∀ type ∈ f.type,
    (∀ i ∈ f.base :: f.bodyReads traceOn role type,
      f.reader.readOffset ≤ i ∧ i < f.reader.readOffset + f.pos + f.val) ∧
    ∀ d ∈ f.lengths role type, d.Exact

/-- The length that a branch takes for granted. -/
def needed (role : Role) (type : UInt8) : Nat :=
  if type = WIRE_CONTROL then 2
  else if type = WIRE_DATA_ACK then 3
  else if type = WIRE_DATA ∧ role = .server then 3
  else 1

/-- The frame is as long as its branch takes it to be; for an unknown type, the dumps find
nothing but the frame. -/
def Proper (role : Role) : Prop :=
  ∀ type ∈ f.type, needed role type ≤ f.val ∧
    (type > WIRE_DATA_ACK → f.reader.readOffset = 0 ∧
      min 64 f.reader.unread.length ≤ f.pos + f.val)

/-! ## The branches -/

/-- The frame is in the buffer as a whole. -/
structure Complete : Prop where
  nonempty : 1 ≤ f.val
  inBuffer : f.pos + f.val ≤ f.reader.unread.length
  small : f.val < 2 ^ 63

variable {f} {traceOn : Bool} {role : Role}

/-- An index of `read_buf` inside the frame. -/
def Within (f : FrameAt) (i : Nat) : Prop :=
  f.reader.readOffset ≤ i ∧ i < f.reader.readOffset + f.pos + f.val

theorem within_base_add {k : Nat} (hk : k < f.val) : f.Within (f.base + k) := by
  unfold Within base
  omega

theorem within_base (h : f.Complete) : f.Within f.base := by
  have := h.nonempty
  unfold Within base
  omega

/-- The second and the third byte of a frame. -/
theorem within_seq_iff : (∀ i ∈ [f.base + 1, f.base + 2], f.Within i) ↔ 3 ≤ f.val := by
  simp only [List.mem_cons, List.not_mem_nil, or_false, forall_eq_or_imp, forall_eq]
  unfold Within base
  omega

theorem within_controlReads (h : f.Complete) (hval : 2 ≤ f.val) {i : Nat}
    (hi : i ∈ f.controlReads) : f.Within i := by
  have hsmall := h.small
  have hsize : f.packetSize.value = f.val - 2 :=
    Difference.Exact.value_eq (d := f.packetSize) hval (by change f.val < 2 ^ 64; omega)
  rcases List.mem_cons.mp hi with rfl | hi
  · exact within_base_add (by omega)
  · obtain ⟨k, hk, rfl⟩ := List.mem_map.mp hi
    have hlt := tryParseReads_lt hk
    rw [List.length_take, hsize] at hlt
    rw [Nat.add_assoc]
    exact within_base_add (by omega)

/-- The payload of a data frame that is long enough. -/
theorem within_payload (h : f.Complete) (hval : 3 ≤ f.val) {n i : Nat}
    (hn : n ≤ f.payloadSize.value) (hi : i ∈ List.range' (f.base + 3) n) : f.Within i := by
  have hsmall := h.small
  have hsize : f.payloadSize.value = f.val - 3 :=
    Difference.Exact.value_eq (d := f.payloadSize) hval (by change f.val < 2 ^ 64; omega)
  rw [List.mem_range'_1] at hi
  unfold Within base at *
  omega

theorem within_dataReads (h : f.Complete) {i : Nat} (hi : i ∈ f.dataReads) : f.Within i := by
  unfold dataReads at hi
  split_ifs at hi with hshort hseq
  · cases hi
  · rcases List.mem_append.mp hi with hi | hi
    · exact within_seq_iff.mpr (by omega) i hi
    · exact within_payload h (by omega) (Nat.le_refl _) hi
  · rw [List.append_nil] at hi
    exact within_seq_iff.mpr (by omega) i hi

theorem within_dataDump (h : f.Complete) (hval : 3 ≤ f.val) {i : Nat}
    (hi : i ∈ f.dataDump traceOn) : f.Within i := by
  rcases List.mem_append.mp hi with hi | hi
  · split_ifs at hi
    · exact within_seq_iff.mpr hval i hi
    · cases hi
  · exact within_payload h hval (Nat.min_le_right _ _) hi

theorem within_violationDump_iff (h : f.Complete) :
    (∀ i ∈ f.violationDump, f.Within i) ↔
      f.reader.readOffset = 0 ∧ min 64 f.reader.unread.length ≤ f.pos + f.val := by
  have hlen := h.inBuffer
  have hone := h.nonempty
  simp only [violationDump, List.mem_append, List.mem_range'_1]
  unfold Within
  constructor
  · intro hall
    constructor
    · by_contra hpos
      have := hall (f.reader.readOffset - min 32 f.reader.readOffset) (by omega)
      omega
    · have := hall (f.reader.readOffset + min 64 f.reader.unread.length - 1) (by omega)
      omega
  · rintro ⟨hzero, hdump⟩ i hi
    omega

/-- The types of the loop, and all others. -/
theorem type_cases (type : UInt8) : type = WIRE_DATA ∨
    (type = WIRE_HEARTBEAT_PING ∨ type = WIRE_HEARTBEAT_PONG) ∨
    (type = WIRE_SHUTDOWN_WR ∨ type = WIRE_SHUTDOWN_WR_ACK) ∨ type = WIRE_CONTROL ∨
    type = WIRE_DATA_ACK ∨ type > WIRE_DATA_ACK := by
  simp only [gt_iff_lt, UInt8.lt_iff_toNat_lt, ← UInt8.toNat_inj, WIRE_DATA, WIRE_HEARTBEAT_PING,
    WIRE_HEARTBEAT_PONG, WIRE_SHUTDOWN_WR, WIRE_SHUTDOWN_WR_ACK, WIRE_CONTROL, WIRE_DATA_ACK,
    UInt8.reduceToNat]
  omega

/-- A branch reads no byte behind the frame, and the lengths it passes on are exact. -/
def BranchInside (f : FrameAt) (traceOn : Bool) (role : Role) (type : UInt8) : Prop :=
  (∀ i ∈ f.bodyReads traceOn role type, f.Within i) ∧ ∀ d ∈ f.lengths role type, d.Exact

theorem branchInside_data_iff (h : f.Complete) :
    f.BranchInside traceOn role WIRE_DATA ↔ needed role WIRE_DATA ≤ f.val := by
  have hreads : f.bodyReads traceOn role WIRE_DATA =
      (if role = .server then f.dataDump traceOn else []) ++ f.dataReads := by
    cases role <;> rfl
  have hlengths : f.lengths role WIRE_DATA = (if role = .server then [f.payloadSize] else []) ++
      if f.val < 3 then [] else [f.payloadSize] := rfl
  have htested : ∀ d ∈ if f.val < 3 then [] else [f.payloadSize], d.Exact := by
    split_ifs with hshort
    · nofun
    · intro d hd
      rw [List.mem_singleton.mp hd]
      exact Nat.not_lt.mp hshort
  rw [BranchInside, hreads, hlengths]
  cases role with
  | client => exact iff_of_true ⟨fun i hi => within_dataReads h hi, htested⟩ h.nonempty
  | server =>
      rw [if_pos rfl, if_pos rfl]
      constructor
      · exact fun hinside => hinside.2 f.payloadSize List.mem_cons_self
      · intro hval
        refine ⟨fun i hi => ?_, ?_⟩
        · rcases List.mem_append.mp hi with hi | hi
          · exact within_dataDump h hval hi
          · exact within_dataReads h hi
        · rw [List.singleton_append, List.forall_mem_cons]
          exact ⟨hval, htested⟩

theorem branchInside_heartbeat {type : UInt8}
    (hbeat : type = WIRE_HEARTBEAT_PING ∨ type = WIRE_HEARTBEAT_PONG) :
    f.BranchInside traceOn role type := by
  have hquiet : f.bodyReads traceOn role type = [] ∧ f.lengths role type = [] := by
    rcases hbeat with rfl | rfl <;> cases role <;> exact ⟨rfl, rfl⟩
  rw [BranchInside, hquiet.1, hquiet.2]
  exact ⟨nofun, nofun⟩

/-- Both roles test the length of the message they act on and skip the other. -/
theorem branchInside_shutdown {type : UInt8}
    (hshutdown : type = WIRE_SHUTDOWN_WR ∨ type = WIRE_SHUTDOWN_WR_ACK) :
    f.BranchInside traceOn role type := by
  have htest : ∀ i ∈ if f.val < 2 then [] else [f.base + 1], f.Within i := by
    split_ifs with hshort
    · nofun
    · intro i hi
      rw [List.mem_singleton.mp hi]
      exact within_base_add (by omega)
  rcases hshutdown with rfl | rfl <;> cases role <;>
    first | exact ⟨htest, nofun⟩ | exact ⟨nofun, nofun⟩

theorem branchInside_control_iff (h : f.Complete) :
    f.BranchInside traceOn role WIRE_CONTROL ↔ needed role WIRE_CONTROL ≤ f.val := by
  have hreads : f.bodyReads traceOn role WIRE_CONTROL = f.controlReads := by cases role <;> rfl
  rw [BranchInside, hreads]
  constructor
  · exact fun hinside => hinside.2 f.packetSize List.mem_cons_self
  · intro hval
    refine ⟨fun i hi => within_controlReads h hval hi, fun d hd => ?_⟩
    rw [List.mem_singleton.mp hd]
    exact hval

theorem branchInside_ack_iff :
    f.BranchInside traceOn role WIRE_DATA_ACK ↔ needed role WIRE_DATA_ACK ≤ f.val := by
  have hreads : f.bodyReads traceOn role WIRE_DATA_ACK = [f.base + 1, f.base + 2] := by
    cases role <;> rfl
  rw [BranchInside, hreads, within_seq_iff]
  exact and_iff_left nofun

theorem ne_of_gt_ack {type : UInt8} (hgt : type > WIRE_DATA_ACK) {c : UInt8}
    (hc : c ≤ WIRE_DATA_ACK) : type ≠ c := by
  rintro rfl
  exact UInt8.not_lt.mpr hc hgt

theorem branchInside_violation_iff (h : f.Complete) {type : UInt8} (hgt : type > WIRE_DATA_ACK) :
    f.BranchInside traceOn role type ↔
      f.reader.readOffset = 0 ∧ min 64 f.reader.unread.length ≤ f.pos + f.val := by
  have hshutdown : type ≠ role.shutdownType ∧ type ≠ role.skippedType := by
    cases role <;> exact ⟨ne_of_gt_ack hgt (by decide), ne_of_gt_ack hgt (by decide)⟩
  have hcontrol := ne_of_gt_ack hgt (c := WIRE_CONTROL) (by decide)
  have hreads : f.bodyReads traceOn role type = f.violationDump := by
    simp only [bodyReads, hshutdown, hcontrol,
      ne_of_gt_ack hgt (c := WIRE_HEARTBEAT_PING) (by decide),
      ne_of_gt_ack hgt (c := WIRE_HEARTBEAT_PONG) (by decide),
      ne_of_gt_ack hgt (c := WIRE_DATA_ACK) (by decide), or_self, if_false, if_pos hgt]
  have hlengths : f.lengths role type = [] := by
    simp [lengths, hcontrol, ne_of_gt_ack hgt (c := WIRE_DATA) (by decide)]
  rw [BranchInside, hreads, hlengths, within_violationDump_iff h]
  exact and_iff_left nofun

theorem needed_eq_one {type : UInt8} (hcontrol : type ≠ WIRE_CONTROL)
    (hack : type ≠ WIRE_DATA_ACK) (hdata : type ≠ WIRE_DATA) : needed role type = 1 := by
  simp [needed, hcontrol, hack, hdata]

/-- What a branch reads and passes on is right exactly where the frame is long enough for it. -/
theorem inside_iff_proper (h : f.Complete) (traceOn : Bool) (role : Role) :
    f.Inside traceOn role ↔ f.Proper role := by
  have hbase := within_base h
  have hone := h.nonempty
  refine forall₂_congr fun type _ => ?_
  change (∀ i ∈ f.base :: f.bodyReads traceOn role type, f.Within i) ∧ _ ↔ _
  rw [List.forall_mem_cons, and_iff_right hbase]
  change f.BranchInside traceOn role type ↔ _
  rcases type_cases type with rfl | hbeat | hshutdown | rfl | rfl | hgt
  · rw [branchInside_data_iff h, and_iff_left (fun hgt => absurd hgt (by decide))]
  · apply iff_of_true (branchInside_heartbeat hbeat)
    rcases hbeat with rfl | rfl
    · exact ⟨hone, fun hgt => absurd hgt (by decide)⟩
    · exact ⟨hone, fun hgt => absurd hgt (by decide)⟩
  · apply iff_of_true (branchInside_shutdown hshutdown)
    rcases hshutdown with rfl | rfl
    · exact ⟨hone, fun hgt => absurd hgt (by decide)⟩
    · exact ⟨hone, fun hgt => absurd hgt (by decide)⟩
  · rw [branchInside_control_iff h, and_iff_left (fun hgt => absurd hgt (by decide))]
  · rw [branchInside_ack_iff, and_iff_left (fun hgt => absurd hgt (by decide))]
  · have hneeded : needed role type = 1 := needed_eq_one (ne_of_gt_ack hgt (by decide))
      (ne_of_gt_ack hgt (by decide)) (ne_of_gt_ack hgt (by decide))
    rw [branchInside_violation_iff h hgt, hneeded, and_iff_right hone]
    exact ⟨fun hdump _ => hdump, fun hdump => hdump hgt⟩

end FrameAt

/-! ## The loop -/

theorem wireVarintLoop_lt (bs : Bytes) : ∀ {pos shift val : Nat}, shift ≤ 62 → val < 2 ^ shift →
    (Server.wireVarintLoop pos shift val bs).2.1 < 2 ^ 63 := by
  induction bs with
  | nil =>
      intro pos shift val hshift hval
      exact Nat.lt_of_lt_of_le hval (Nat.pow_le_pow_right (by decide) (by omega))
  | cons b bs ih =>
      intro pos shift val hshift hval
      have hlow : (b.toNat &&& 0x7F) <<< shift < 2 ^ (shift + 7) := by
        rw [and_0x7F, Nat.shiftLeft_eq, Nat.pow_add, Nat.mul_comm]
        exact Nat.mul_lt_mul_of_pos_left (Nat.mod_lt _ (by decide)) (Nat.two_pow_pos shift)
      have hnext : val ||| (b.toNat &&& 0x7F) <<< shift < 2 ^ (shift + 7) :=
        Nat.or_lt_two_pow (Nat.lt_of_lt_of_le hval (Nat.pow_le_pow_right (by decide) (by omega)))
          hlow
      rw [Server.wireVarintLoop]
      split_ifs with hmore hlast
      · exact Nat.lt_of_lt_of_le hnext (Nat.pow_le_pow_right (by decide) (by omega))
      · exact ih (by omega) hnext
      · exact Nat.lt_of_lt_of_le hval (Nat.pow_le_pow_right (by decide) (by omega))

namespace Reader

variable {r : Reader} {f : FrameAt}

/-- The loop handles complete frames only. -/
theorem frameAt_complete (h : r.frameAt = some f) : f.Complete ∧ f.reader = r := by
  simp only [frameAt] at h
  split_ifs at h with hempty hlong hpart
  obtain rfl := Option.some.inj h
  refine ⟨⟨by dsimp only; omega, by dsimp only; omega, ?_⟩, rfl⟩
  exact wireVarintLoop_lt r.unread (by omega) (by decide)

theorem framesLoop_complete (role : Role) (fuel : Nat) :
    ∀ {r : Reader}, ∀ f ∈ r.framesLoop role fuel, f.Complete := by
  induction fuel with
  | zero => intro r f hf; cases hf
  | succ fuel ih =>
      intro r f hf
      rw [framesLoop] at hf
      cases hframe : r.frameAt with
      | none =>
          rw [hframe] at hf
          cases hf
      | some first =>
          rw [hframe] at hf
          rcases List.mem_cons.mp hf with rfl | hrest
          · exact (frameAt_complete hframe).1
          · split at hrest
            · exact ih f hrest
            · cases hrest

/-- Whatever a peer has sent, the readers stay inside the frames exactly when every frame they
come to is long enough for its type. -/
theorem frames_inside_iff (traceOn : Bool) (role : Role) (r : Reader) :
    (∀ f ∈ r.frames role, f.Inside traceOn role) ↔ ∀ f ∈ r.frames role, f.Proper role :=
  forall₂_congr fun f hf =>
    FrameAt.inside_iff_proper (framesLoop_complete role _ f hf) traceOn role

theorem not_inside_short_control (traceOn : Bool) (role : Role) :
    ¬ ∀ f ∈ ({ readBuf := [1, WIRE_CONTROL] } : Reader).frames role, f.Inside traceOn role := by
  intro hinside
  have hframe : (⟨{ readBuf := [1, WIRE_CONTROL] }, 1, 1⟩ : FrameAt) ∈
      ({ readBuf := [1, WIRE_CONTROL] } : Reader).frames role := by
    cases role <;> exact List.mem_cons_self
  have hexact := (hinside _ hframe WIRE_CONTROL rfl).2 ⟨1, 2⟩ List.mem_cons_self
  exact absurd hexact (by decide)

/-- A control frame of one byte leads both readers outside. -/
theorem frames_outside_short_control :
    (¬ ∀ f ∈ ({ readBuf := [1, WIRE_CONTROL] } : Reader).frames .client,
        f.Inside false .client) ∧
      ¬ ∀ f ∈ ({ readBuf := [1, WIRE_CONTROL] } : Reader).frames .server,
        f.Inside false .server :=
  ⟨not_inside_short_control false .client, not_inside_short_control false .server⟩

/-! ## Frames that are long enough -/

/-- A branch that stays inside `read_buf`; the loop goes on behind the frame, if it goes on. -/
def Passes (r : Reader) (n : Nat) (result : Option (Reader × Bool)) : Prop :=
  ∃ r' more, result = some (r', more) ∧ (more = true → r'.unread = r.unread.drop n)

theorem passes_pass (r : Reader) (n : Nat) (e : Handled) : r.Passes n (some (r.pass n e, true)) :=
  ⟨_, true, rfl, fun _ => unread_pass n e⟩

theorem passes_clear (r : Reader) (n : Nat) (e : Handled) : r.Passes n (some (r.clear e, false)) :=
  ⟨_, false, rfl, nofun⟩

theorem passes_acceptData (r : Reader) (n : Nat) (seq : UInt16) (payload : Bytes) :
    r.Passes n (some (r.acceptData n seq payload, true)) := by
  refine ⟨_, true, rfl, fun _ => ?_⟩
  rw [acceptData]
  split_ifs
  · exact unread_pass (r := { r with recvSeq := r.recvSeq + 1 }) n _
  · exact unread_pass n _

/-- A frame that is long enough does not lead out of `read_buf`. -/
theorem passes_handle (role : Role) (h : f.Complete) (hproper : f.Proper role) :
    f.reader.Passes (f.pos + f.val) (f.reader.handle role f.pos f.val) := by
  have hone := h.nonempty
  have hlen := h.inBuffer
  obtain ⟨type, htype⟩ : ∃ type, f.reader.unread[f.pos]? = some type :=
    ⟨_, List.getElem?_eq_getElem (by omega)⟩
  obtain ⟨hneeded, -⟩ := hproper type htype
  have hbyte : ∀ k < f.val, ∃ b, f.reader.unread[f.pos + k]? = some b := fun k hk =>
    ⟨_, List.getElem?_eq_getElem (by omega)⟩
  rw [handle]
  simp only [htype]
  by_cases hping : type = WIRE_HEARTBEAT_PING
  · rw [if_pos hping]
    exact passes_pass _ _ _
  rw [if_neg hping]
  by_cases hpong : type = WIRE_HEARTBEAT_PONG
  · rw [if_pos hpong]
    exact passes_pass _ _ _
  rw [if_neg hpong]
  by_cases hshutdown : type = role.shutdownType
  · rw [if_pos hshutdown]
    split
    · exact passes_clear _ _ _
    · obtain ⟨cid, hcid⟩ := hbyte 1 (by omega)
      rw [hcid]
      exact passes_pass _ _ _
  rw [if_neg hshutdown]
  by_cases hskipped : type = role.skippedType
  · rw [if_pos hskipped]
    exact passes_pass _ _ _
  rw [if_neg hskipped]
  by_cases hcontrol : type = WIRE_CONTROL
  · rw [FrameAt.needed, if_pos hcontrol] at hneeded
    obtain ⟨seq, hseq⟩ := hbyte 1 (by omega)
    rw [if_pos hcontrol, if_neg (Nat.not_lt.mpr hneeded), hseq]
    dsimp only
    split
    · exact passes_pass _ _ _
    · split
      · exact passes_pass _ _ _
      · exact passes_pass _ _ _
  rw [if_neg hcontrol]
  by_cases hack : type = WIRE_DATA_ACK
  · rw [FrameAt.needed, if_neg hcontrol, if_pos hack] at hneeded
    obtain ⟨lo, hlo⟩ := hbyte 1 (by omega)
    obtain ⟨hi, hhi⟩ := hbyte 2 (by omega)
    rw [if_pos hack, hlo, hhi]
    exact passes_pass _ _ _
  rw [if_neg hack]
  by_cases hgt : type > WIRE_DATA_ACK
  · rw [if_pos hgt]
    exact passes_clear _ _ _
  rw [if_neg hgt]
  by_cases hdata : f.val < 3
  · rw [if_pos hdata]
    exact passes_pass _ _ _
  · obtain ⟨lo, hlo⟩ := hbyte 1 (by omega)
    obtain ⟨hi, hhi⟩ := hbyte 2 (by omega)
    rw [if_neg hdata, hlo, hhi]
    exact passes_acceptData _ _ _ _

theorem round_of_frameAt (role : Role) (h : r.frameAt = some f) :
    r.round role = r.handle role f.pos f.val := by
  simp only [frameAt] at h
  split_ifs at h with hempty hlong hpart
  obtain rfl := Option.some.inj h
  simp only [round]
  rw [if_neg hempty, if_neg hlong, if_neg hpart]

theorem round_of_no_frame (role : Role) (h : r.frameAt = none) :
    ∃ r', r.round role = some (r', false) := by
  simp only [frameAt] at h
  simp only [round]
  split_ifs at h ⊢
  · exact ⟨_, rfl⟩
  · exact ⟨_, rfl⟩
  · exact ⟨_, rfl⟩

/-- With frames that are long enough the loop comes to its end without an access outside
`read_buf`. -/
theorem loop_isSome_of_proper (role : Role) (fuel : Nat) : ∀ {r : Reader},
    r.unread.length < fuel → (∀ f ∈ r.framesLoop role fuel, f.Proper role) →
    (r.loop role fuel).isSome := by
  induction fuel with
  | zero => intro r hlt; omega
  | succ fuel ih =>
      intro r hlt hproper
      rw [loop]
      cases hframe : r.frameAt with
      | none =>
          obtain ⟨r', hround⟩ := round_of_no_frame role hframe
          rw [hround]
          rfl
      | some f =>
          rw [framesLoop, hframe] at hproper
          obtain ⟨hcomplete, rfl⟩ := frameAt_complete hframe
          have hone := hcomplete.nonempty
          have hlen := hcomplete.inBuffer
          obtain ⟨r', more, hhandle, hrest⟩ :=
            passes_handle role hcomplete (hproper f List.mem_cons_self)
          rw [round_of_frameAt role hframe, hhandle]
          cases more with
          | false => rfl
          | true =>
              refine ih ?_ fun g hg => hproper g (List.mem_cons_of_mem f ?_)
              · rw [hrest rfl, List.length_drop]
                omega
              · simpa [hhandle] using hg

end Reader

end PipelineTunnel.Wire
