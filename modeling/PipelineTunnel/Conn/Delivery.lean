import PipelineTunnel.Conn.Refinement

/-!
# What a data connection delivers

A run of a connection whose steps are clean is a run of its two links, so it dispatches the payloads
of `wire_write` in order, none twice, and all of them once nothing is under way. Control packets
arrive in the order of `send_control`, and no read fails.
-/

namespace PipelineTunnel.Conn

open StepSystem Protocol
open Common (Socket)
open Link (DataLink)
open Server (MAX_PACKET_SIZE)
open Wire (Handled Role WireFrame)

def controlOf : WireFrame → Option (UInt8 × Packet)
  | .control seq pkt => some (seq, pkt)
  | _ => none

def controlIn : Handled → Option (UInt8 × Packet)
  | .control seq pkt => some (seq, pkt)
  | _ => none

theorem controlIn_handledAt (f : WireFrame) (expected : UInt16) :
    controlIn (f.handledAt expected) = controlOf f := by
  cases f with
  | data seq payload =>
      rw [WireFrame.handledAt]
      split <;> rfl
  | control | dataAck | ping | pong | shutdownWr => rfl

theorem controlOf_normal (cls : Common.Class) (f : WireFrame) (h : OfClass cls f)
    (hcls : cls ≠ .priority) : controlOf f = none := by
  cases cls with
  | normal => cases f <;> first | rfl | exact h.elim
  | priority => exact absurd rfl hcls

/-! ## Runs -/

/-- Both directions are runs of links that are never lost. -/
def Linked (s : State) : Prop :=
  ∃ out back up down, Reaches .client {} up ∧ Reaches .server {} down ∧
    Both s.client s.server out back up down

variable {sock : Role → Socket} {s s' : State}

theorem Linked.start : Linked {} := ⟨[], [], {}, {}, .refl _, .refl _, .start⟩

theorem Linked.step (hsock : ∀ side, (sock side).NoErrors) (h : Linked s) {l : Step}
    (hclean : Clean sock s l) (hstep : Conn.step sock s l = some s') : Linked s' := by
  obtain ⟨out, back, up, down, hup, hdown, hboth⟩ := h
  obtain ⟨hfits, hclear⟩ := hclean
  obtain ⟨e, he, rfl⟩ := Option.map_eq_some_iff.mp hstep
  cases hside : l.side with
  | client =>
      have hnear : s.near l.side = s.client := by rw [hside]; rfl
      have hfar : s.far l.side = s.server := by rw [hside]; rfl
      rw [hnear] at hfits hclear he
      rw [hfar] at he
      obtain ⟨back', up', down', hup', hdown', hboth'⟩ := hboth.step hsock hfits hclear he
      exact ⟨out, back', up', down', hup.trans hup', hdown.trans hdown', hboth'⟩
  | server =>
      have hnear : s.near l.side = s.server := by rw [hside]; rfl
      have hfar : s.far l.side = s.client := by rw [hside]; rfl
      rw [hnear] at hfits hclear he
      rw [hfar] at he
      obtain ⟨out', down', up', hdown', hup', hboth'⟩ := hboth.symm.step hsock hfits hclear he
      exact ⟨out', back, up', down', hup.trans hup', hdown.trans hdown', hboth'.symm⟩

theorem linked_of_run (hsock : ∀ side, (sock side).NoErrors) {ls : List Step}
    (hrun : run (step sock) {} ls = some s) (hclean : Meets (step sock) (Clean sock) {} ls) :
    Linked s :=
  invariant_of_meets (fun _ _ _ h hok hstep => h.step hsock hok hstep) .start hclean hrun

/-- What both levels have of the direction from `x` to `y`. -/
structure Shows (x y : End) (a : DataLink) : Prop where
  sendSeq : a.sendSeq = x.sendSeq
  unacked : a.unacked.map key = x.unacked
  sending : a.sending.map key = x.sending
  passed : a.passed = x.passed
  recvSeq : a.recvSeq = y.reader.recvSeq
  dispatched : a.dispatched.map Link.Frame.payload = y.reader.handled.filterMap payloadIn

/-- Whatever the sockets take and however the reads cut the bytes, each direction of a connection is
a run of a link that is never lost, with the same numbers, window and payloads. -/
theorem connection_refines_links (hsock : ∀ side, (sock side).NoErrors) {ls : List Step}
    (hrun : run (step sock) {} ls = some s) (hclean : Meets (step sock) (Clean sock) {} ls) :
    ∃ ups downs up down, .lose ∉ ups ∧ .lose ∉ downs ∧
      run (Link.step .client) {} ups = some up ∧ run (Link.step .server) {} downs = some down ∧
      Shows s.client s.server up ∧ Shows s.server s.client down := by
  obtain ⟨out, back, up, down, ⟨ups, hups, hrunUp⟩, ⟨downs, hdowns, hrunDown⟩, hboth⟩ :=
    linked_of_run hsock hrun hclean
  have hforth := hboth.followsOut
  have hback := hboth.followsBack
  exact ⟨ups, downs, up, down, hups, hdowns, hrunUp, hrunDown,
    ⟨hforth.sendSeq, hforth.unacked, hforth.sending, hforth.passed, hforth.recvSeq,
      hforth.dispatched⟩,
    ⟨hback.sendSeq, hback.unacked, hback.sending, hback.passed, hback.recvSeq, hback.dispatched⟩⟩

/-- Sockets that take one byte, have no room, and take everything, in turn. -/
def stuttering : Role → Socket := fun _ => Common.stutter

/-- The first read ends inside the data frame, the second one has the rest of it and a control
frame. -/
def acknowledgedRun : List Step :=
  [.send .client [1, 2], .keep .client, .control .client 0 ⟨6, []⟩, .flush .client, .flush .client,
    .read .server 4, .flush .client, .flush .client, .read .server 7, .handle .server,
    .handle .server, .flush .server, .flush .server, .flush .server, .read .client 4,
    .handle .client]

theorem connection_refines_links_stutter :
    ∃ s, run (step stuttering) {} acknowledgedRun = some s ∧
      ∃ ups downs up down, .lose ∉ ups ∧ .lose ∉ downs ∧
        run (Link.step .client) {} ups = some up ∧ run (Link.step .server) {} downs = some down ∧
        Shows s.client s.server up ∧ Shows s.server s.client down := by
  obtain ⟨s, hrun⟩ : ∃ s, run (step stuttering) {} acknowledgedRun = some s :=
    Option.isSome_iff_exists.mp (by decide +kernel)
  exact ⟨s, hrun, connection_refines_links (fun _ => Common.stutter_noErrors) hrun
    (by decide +kernel)⟩

/-! ## Delivery -/

/-- Nothing of `x` waits in its writer or in its socket. -/
def Drained (x y : End) : Prop :=
  x.writer.channel.buf.chunks = [] ∧ x.writer.channel.buf.priorityChunks = [] ∧ y.got = x.sent

instance (x y : End) : Decidable (Drained x y) := inferInstanceAs (Decidable (_ ∧ _ ∧ _))

/-- What `y` has of `x`. -/
structure Delivers (x y : End) : Prop where
  payloads : y.reader.handled.filterMap payloadIn <+: x.passed
  controls : y.reader.handled.filterMap controlIn <+: x.priority.filterMap controlOf
  all : Drained x y → y.reader.handled.filterMap payloadIn = x.passed ∧
    y.reader.handled.filterMap controlIn = x.priority.filterMap controlOf
  readable : ∀ side n, 1 ≤ n → n ≤ (x.sent.drop y.got.length).length → n ≤ MAX_PACKET_SIZE →
    (y.read side x n).isSome

variable {x y : End} {out back : List (Common.Class × WireFrame)} {a b : DataLink}

theorem Carried.controls (h : Carried x y out) :
    y.reader.handled.filterMap controlIn = (Common.itemsOf out .priority).filterMap controlOf := by
  rw [h.passed.handled, ← filterMap_items controlOf_normal out h.ofClass]
  exact filterMap_handledFrom controlIn_handledAt _ _

theorem Both.delivers (h : Both x y out back a b) : Delivers x y := by
  have hlossless := h.followsOut.lossless
  have hdispatched := h.followsOut.dispatched
  refine ⟨?_, ?_, ?_, ?_⟩
  · rw [← hdispatched, ← h.followsOut.passed]
    exact hlossless.dispatched
  · rw [h.carriesOut.controls]
    exact (h.carriesOut.merged .priority).filterMap controlOf
  · rintro ⟨hnormal, hpriority, hgot⟩
    have hall := h.carriesOut.drained hnormal hpriority hgot
    constructor
    · have hwire := h.followsOut.wire
      rw [filterMap_items dataOf_priority out h.carriesOut.ofClass, hall .normal] at hwire
      have hempty : a.wire = [] := List.map_eq_nil_iff.mp (List.append_right_eq_self.mp hwire)
      rw [← hdispatched, ← h.followsOut.passed]
      apply hlossless.dispatched_of_empty
      rw [DataLink.channel, hempty, h.followsOut.writer, List.nil_append]
    · rw [h.carriesOut.controls, hall .priority]
      rfl
  · intro side n hpos hflying hmax
    obtain ⟨r, new, hreceive, -⟩ := h.carriesOut.receive (h.carriesOut.inFlight n) side
    rw [End.read, if_pos ⟨hpos, hflying, hmax⟩, hreceive]
    rfl

/-- Each end delivers to the other in every state of a run with clean steps. -/
theorem connection_delivers (hsock : ∀ side, (sock side).NoErrors) {ls : List Step}
    (hrun : run (step sock) {} ls = some s) (hclean : Meets (step sock) (Clean sock) {} ls)
    (side : Role) : Delivers (s.near side) (s.far side) := by
  obtain ⟨out, back, up, down, -, -, hboth⟩ := linked_of_run hsock hrun hclean
  cases side with
  | client => exact hboth.delivers
  | server => exact hboth.symm.delivers

/-- All bytes are read in the end. -/
theorem connection_delivers_stutter :
    ∃ s, run (step stuttering) {} acknowledgedRun = some s ∧
      Delivers s.client s.server ∧ Drained s.client s.server ∧
      s.server.reader.handled = [.data 0 [1, 2], .control 0 ⟨6, []⟩] := by
  have hend : ∃ s, run (step stuttering) {} acknowledgedRun = some s ∧
      Drained s.client s.server ∧
      s.server.reader.handled = [.data 0 [1, 2], .control 0 ⟨6, []⟩] := by
    refine ⟨_, rfl, ?_⟩
    decide +kernel
  obtain ⟨s, hrun, hdrained, hhandled⟩ := hend
  have hdelivers : Delivers s.client s.server :=
    connection_delivers (fun _ => Common.stutter_noErrors) hrun (by decide +kernel) .client
  exact ⟨s, hrun, hdelivers, hdrained, hhandled⟩

end PipelineTunnel.Conn
