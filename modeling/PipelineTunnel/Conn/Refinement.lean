import PipelineTunnel.Conn.Carriage
import PipelineTunnel.Link.Lossless

/-!
# A data connection refines its two links

Each direction of a connection is a run of the link whose frames are whole: the bytes that wait in
the write buffer, in the socket and in the buffer of the reader are the frames of the link, and
every step of the connection is a few steps of the two links.

## Implementation notes

`Follows` relates the direction from `x` to `y` to a link. `out` are the frames of `x` that the
reader of `y` has handled, `back` those of `y` that the reader of `x` has. The link flushes at once
what it writes, so that its frames are in flight while those of the connection may still wait.
-/

namespace PipelineTunnel.Conn

open StepSystem Protocol
open Common (Op Socket itemsOf Merged)
open Link (DataLink Lossless)
open Wire (Handled Reader Role WireFrame)
open Wire.Reader (Passed)

/-! ## What frames and branches are about -/

def dataOf : WireFrame → Option (UInt16 × Bytes)
  | .data seq payload => some (seq, payload)
  | _ => none

def ackOf : WireFrame → Option UInt16
  | .dataAck seq => some seq
  | _ => none

/-- The number that a branch acknowledges. -/
def ackDue : Handled → Option UInt16
  | .data seq _ | .duplicate seq => some seq
  | _ => none

def ackIn : Handled → Option UInt16
  | .dataAck seq => some seq
  | _ => none

def payloadIn : Handled → Option Bytes
  | .data _ payload => some payload
  | _ => none

def key (f : Link.Frame) : UInt16 × Bytes := (f.seq, f.payload)

theorem handledAt_of_dataOf {f : WireFrame} (h : dataOf f = none) (expected : UInt16) :
    f.nextAt expected = expected ∧ ackDue (f.handledAt expected) = none ∧
      payloadIn (f.handledAt expected) = none := by
  cases f with
  | data seq payload => cases h
  | control | dataAck | ping | pong | shutdownWr => exact ⟨rfl, rfl, rfl⟩

theorem filterMap_handledFrom {β : Type*} {pick : WireFrame → Option β} {pickIn : Handled → Option β}
    (hpick : ∀ f expected, pickIn (f.handledAt expected) = pick f) (fs : List WireFrame) :
    ∀ expected : UInt16,
      (WireFrame.handledFrom expected fs).filterMap pickIn = fs.filterMap pick := by
  induction fs with
  | nil => exact fun _ => rfl
  | cons f fs ih =>
      intro expected
      rw [WireFrame.handledFrom, List.filterMap_cons, List.filterMap_cons, hpick, ih]

theorem ackIn_handledAt (f : WireFrame) (expected : UInt16) :
    ackIn (f.handledAt expected) = ackOf f := by
  cases f with
  | data seq payload =>
      rw [WireFrame.handledAt]
      split <;> rfl
  | control | dataAck | ping | pong | shutdownWr => rfl

/-- What only one class has is found in the frames of that class. -/
theorem filterMap_items {β : Type*} {pick : WireFrame → Option β} {cls : Common.Class}
    (hpick : ∀ cls' f, OfClass cls' f → cls' ≠ cls → pick f = none)
    (items : List (Common.Class × WireFrame)) (hof : ∀ item ∈ items, OfClass item.1 item.2) :
    (items.map Prod.snd).filterMap pick = (itemsOf items cls).filterMap pick := by
  induction items with
  | nil => rfl
  | cons item items ih =>
      have hrest := ih fun g hg => hof g (List.mem_cons_of_mem _ hg)
      rw [List.map_cons, List.filterMap_cons, hrest, Common.itemsOf_cons]
      by_cases hcls : item.1 = cls
      · rw [if_pos hcls, List.filterMap_cons]
      · rw [if_neg hcls, hpick item.1 item.2 (hof item List.mem_cons_self) hcls]

theorem dataOf_priority (cls : Common.Class) (f : WireFrame) (h : OfClass cls f)
    (hcls : cls ≠ .normal) : dataOf f = none := by
  cases cls with
  | normal => exact absurd rfl hcls
  | priority => cases f <;> first | rfl | exact h.elim

theorem ackOf_normal (cls : Common.Class) (f : WireFrame) (h : OfClass cls f)
    (hcls : cls ≠ .priority) : ackOf f = none := by
  cases cls with
  | normal => cases f <;> first | rfl | exact h.elim
  | priority => exact absurd rfl hcls

section Parsed

variable {e other : End} {items : List (Common.Class × WireFrame)}

theorem Carried.ofClass (h : Carried e other items) : ∀ item ∈ items, OfClass item.1 item.2 :=
  fun _ hitem => (h.fits _ _ (h.merged.mem hitem)).2

theorem Carried.data_prefix (h : Carried e other items) :
    (items.map Prod.snd).filterMap dataOf <+: e.normal.filterMap dataOf := by
  rw [filterMap_items dataOf_priority items h.ofClass]
  exact (h.merged .normal).filterMap dataOf

theorem Carried.ack_prefix (h : Carried e other items) :
    (items.map Prod.snd).filterMap ackOf <+: e.priority.filterMap ackOf := by
  rw [filterMap_items ackOf_normal items h.ofClass]
  exact (h.merged .priority).filterMap ackOf

end Parsed

/-! ## Runs of a link without a loss -/

def Reaches (role : Link.Role) (a a' : DataLink) : Prop :=
  ∃ ls, .lose ∉ ls ∧ run (Link.step role) a ls = some a'

section Links

variable {role : Link.Role} {a a' a'' : DataLink}

theorem Reaches.refl (a : DataLink) : Reaches role a a := ⟨[], by simp, rfl⟩

theorem Reaches.trans (h : Reaches role a a') (h' : Reaches role a' a'') : Reaches role a a'' := by
  obtain ⟨ls, hloss, hrun⟩ := h
  obtain ⟨ms, hloss', hrun'⟩ := h'
  refine ⟨ls ++ ms, ?_, run_append hrun hrun'⟩
  simp [hloss, hloss']

theorem Reaches.single {l : Link.Step} (hl : l ≠ .lose) (hstep : Link.step role a l = some a') :
    Reaches role a a' :=
  ⟨[l], by simpa using hl.symm, by simp only [run, hstep]⟩

theorem Reaches.lossless (h : Reaches role a a') (ha : Lossless a) : Lossless a' := by
  obtain ⟨ls, hloss, hrun⟩ := h
  refine invariant_of_labels (p := fun l => l ≠ .lose) (fun _ _ _ h hl hstep => h.step hl hstep) ha
    ?_ hrun
  rintro l hl rfl
  exact hloss hl

/-- A write, and the flush that puts the frame in flight. -/
theorem Reaches.written {l : Link.Step} (hl : l ≠ .lose) {f : Link.Frame}
    (hstep : Link.step role a l = some a') (hwriter : a'.writer = [f]) :
    Reaches role a { a' with writer := [], wire := a'.wire ++ [f] } := by
  have hflush : Link.step role a' .flush = some { a' with writer := [], wire := a'.wire ++ [f] } := by
    simp only [Link.step, hwriter]
  exact (Reaches.single hl hstep).trans (.single (by simp) hflush)

/-- The frames `gs` arrive, and nothing else happens. -/
structure Arrives (a a' : DataLink) (gs : List WireFrame) : Prop where
  wire : a.wire.map key = gs.filterMap dataOf ++ a'.wire.map key
  recvSeq : a'.recvSeq = WireFrame.expectedAfter a.recvSeq gs
  acks : a'.acks = a.acks ++ (WireFrame.handledFrom a.recvSeq gs).filterMap ackDue
  dispatched : a'.dispatched.map Link.Frame.payload = a.dispatched.map Link.Frame.payload ++
    (WireFrame.handledFrom a.recvSeq gs).filterMap payloadIn
  sendSeq : a'.sendSeq = a.sendSeq
  unacked : a'.unacked = a.unacked
  sending : a'.sending = a.sending
  passed : a'.passed = a.passed
  writer : a'.writer = a.writer

theorem Arrives.refl (a : DataLink) : Arrives a a [] :=
  ⟨rfl, rfl, (List.append_nil _).symm, (List.append_nil _).symm, rfl, rfl, rfl, rfl, rfl⟩

/-- Frames that are not data concern the other link. -/
theorem Arrives.skip {gs : List WireFrame} (h : Arrives a a' gs) {f : WireFrame}
    (hf : dataOf f = none) : Arrives a a' (f :: gs) := by
  obtain ⟨hnext, hdue, hpayload⟩ := handledAt_of_dataOf hf a.recvSeq
  refine ⟨?_, ?_, ?_, ?_, h.sendSeq, h.unacked, h.sending, h.passed, h.writer⟩
  · rw [List.filterMap_cons_none hf]
    exact h.wire
  · rw [WireFrame.expectedAfter, hnext]
    exact h.recvSeq
  · rw [WireFrame.handledFrom, List.filterMap_cons_none hdue, hnext]
    exact h.acks
  · rw [WireFrame.handledFrom, List.filterMap_cons_none hpayload, hnext]
    exact h.dispatched

/-- A data frame of the connection is one of the link. -/
theorem Arrives.deliver {g : Link.Frame} {rest : List Link.Frame} (hwire : a.wire = g :: rest)
    {gs : List WireFrame} (h : Arrives (DataLink.receiveData { a with wire := rest } g) a' gs) :
    Arrives a a' (.data g.seq g.payload :: gs) := by
  obtain ⟨hw, hrecv, hacks, hdispatched, hsend, hunacked, hsending, hpassed, hwriter⟩ := h
  by_cases hseq : g.seq = a.recvSeq
  · rw [DataLink.receiveData, if_pos hseq] at hw hrecv hacks hdispatched hsend hunacked hsending
    rw [DataLink.receiveData, if_pos hseq] at hpassed hwriter
    refine ⟨?_, ?_, ?_, ?_, hsend, hunacked, hsending, hpassed, hwriter⟩
    · rw [hwire, List.map_cons, hw]
      rfl
    · rw [hrecv, WireFrame.expectedAfter, WireFrame.nextAt, if_pos hseq]
    · rw [hacks, WireFrame.handledFrom, WireFrame.handledAt, WireFrame.nextAt, if_pos hseq,
        if_pos hseq, List.append_assoc]
      rfl
    · rw [hdispatched, WireFrame.handledFrom, WireFrame.handledAt, WireFrame.nextAt, if_pos hseq,
        if_pos hseq, List.map_append, List.append_assoc]
      rfl
  · rw [DataLink.receiveData, if_neg hseq] at hw hrecv hacks hdispatched hsend hunacked hsending
    rw [DataLink.receiveData, if_neg hseq] at hpassed hwriter
    refine ⟨?_, ?_, ?_, ?_, hsend, hunacked, hsending, hpassed, hwriter⟩
    · rw [hwire, List.map_cons, hw]
      rfl
    · rw [hrecv, WireFrame.expectedAfter, WireFrame.nextAt, if_neg hseq]
    · rw [hacks, WireFrame.handledFrom, WireFrame.handledAt, WireFrame.nextAt, if_neg hseq,
        if_neg hseq, List.append_assoc]
      rfl
    · rw [hdispatched, WireFrame.handledFrom, WireFrame.handledAt, WireFrame.nextAt, if_neg hseq,
        if_neg hseq]
      rfl

theorem exists_arrives (gs : List WireFrame) : ∀ {a : DataLink},
    gs.filterMap dataOf <+: a.wire.map key → ∃ a', Reaches role a a' ∧ Arrives a a' gs := by
  induction gs with
  | nil => exact fun _ => ⟨_, .refl _, .refl _⟩
  | cons f gs ih =>
      intro a hwire
      cases hdata : dataOf f with
      | none =>
          rw [List.filterMap_cons_none hdata] at hwire
          obtain ⟨a', hreach, harrives⟩ := ih hwire
          exact ⟨a', hreach, harrives.skip hdata⟩
      | some d =>
          rw [List.filterMap_cons_some hdata] at hwire
          obtain ⟨g, rest, hlist⟩ : ∃ g rest, a.wire = g :: rest := by
            apply List.exists_cons_of_ne_nil
            rintro hnil
            simp [hnil] at hwire
          rw [hlist, List.map_cons, List.cons_prefix_cons] at hwire
          obtain ⟨hkey, hrest⟩ := hwire
          obtain rfl : f = .data g.seq g.payload := by
            cases f with
            | data seq payload =>
                have hpair : (seq, payload) = key g := (Option.some.inj hdata).trans hkey
                obtain ⟨rfl, rfl⟩ := Prod.mk.inj hpair
                rfl
            | control | dataAck | ping | pong | shutdownWr => cases hdata
          have hsame : (DataLink.receiveData { a with wire := rest } g).wire = rest := by
            rw [DataLink.receiveData]
            split <;> rfl
          obtain ⟨a', hreach, harrives⟩ :=
            @ih (DataLink.receiveData { a with wire := rest } g) (by rw [hsame]; exact hrest)
          have hstep : Link.step role a .deliver =
              some (DataLink.receiveData { a with wire := rest } g) := by
            simp only [Link.step, hlist]
          exact ⟨a', (Reaches.single (by simp) hstep).trans hreach,
            harrives.deliver hlist⟩

end Links

/-! ## The relation -/

/-- The direction from `x` to `y` as a link. -/
structure Follows (x y : End) (out back : List (Common.Class × WireFrame)) (a : DataLink) :
    Prop where
  lossless : Lossless a
  writer : a.writer = []
  sendSeq : a.sendSeq = x.sendSeq
  unacked : a.unacked.map key = x.unacked
  sending : a.sending.map key = x.sending
  passed : a.passed = x.passed
  recvSeq : a.recvSeq = y.reader.recvSeq
  dispatched : a.dispatched.map Link.Frame.payload = y.reader.handled.filterMap payloadIn
  wire : (out.map Prod.snd).filterMap dataOf ++ a.wire.map key = x.normal.filterMap dataOf
  acks : ∃ flying, (back.map Prod.snd).filterMap ackOf ++ flying = y.priority.filterMap ackOf ∧
    a.acks = x.todo.filterMap ackIn ++ flying ++ y.todo.filterMap ackDue
  kept : ∀ f ∈ x.unacked ++ x.sending.toList, (WireFrame.data f.1 f.2).Fits

section Follows

variable {x x' y y' : End} {out back new : List (Common.Class × WireFrame)} {a : DataLink}
  {role : Link.Role} {u : Common.Usage}

theorem Follows.start : Follows {} {} [] [] {} :=
  ⟨.init, rfl, rfl, rfl, rfl, rfl, rfl, rfl, rfl, ⟨[], rfl, rfl⟩, by simp⟩

/-- Other frames leave the link as it is. -/
theorem Follows.congr (h : Follows x y out back a) (hsendSeq : x'.sendSeq = x.sendSeq)
    (hunacked : x'.unacked = x.unacked) (hsending : x'.sending = x.sending)
    (hpassed : x'.passed = x.passed)
    (hnormal : x'.normal.filterMap dataOf = x.normal.filterMap dataOf)
    (hin : x'.todo.filterMap ackIn = x.todo.filterMap ackIn) (hreader : y'.reader = y.reader)
    (hpriority : y'.priority.filterMap ackOf = y.priority.filterMap ackOf)
    (hdue : y'.todo.filterMap ackDue = y.todo.filterMap ackDue) : Follows x' y' out back a := by
  refine ⟨h.lossless, h.writer, hsendSeq ▸ h.sendSeq, hunacked ▸ h.unacked, hsending ▸ h.sending,
    hpassed ▸ h.passed, hreader ▸ h.recvSeq, hreader ▸ h.dispatched, hnormal ▸ h.wire, ?_, ?_⟩
  · rw [hpriority, hin, hdue]
    exact h.acks
  · rw [hunacked, hsending]
    exact h.kept

/-- `wire_write` writes the frame and numbers it. -/
theorem Follows.send (h : Follows x y out back a) (hnone : x.sending = none) {payload : Bytes}
    (hfits : (WireFrame.data x.sendSeq payload).Fits) :
    ∃ a', Reaches role a a' ∧ Follows
      { x with
        writer := u
        normal := x.normal ++ [.data x.sendSeq payload]
        sendSeq := x.sendSeq + 1
        sending := some (x.sendSeq, payload)
        passed := x.passed ++ [payload] } y out back a' := by
  have hsending : a.sending = none := by
    have := h.sending
    rwa [hnone, Option.map_eq_none_iff] at this
  have hwrite : a.wireWrite payload =
      { a with
        writer := [⟨a.sendSeq, payload, a.accepted.length⟩]
        sendSeq := a.sendSeq + 1
        sending := some ⟨a.sendSeq, payload, a.accepted.length⟩
        passed := a.passed ++ [payload]
        accepted := a.accepted ++ [payload] } := by
    rw [DataLink.wireWrite, if_pos h.lossless.isOpen]
    simp [DataLink.write, h.writer]
  have hstep : Link.step role a (.send payload) = some (a.wireWrite payload) := by
    simp [Link.step, hsending]
  rw [hwrite] at hstep
  have hreach := Reaches.written (by simp) hstep rfl
  refine ⟨_, hreach, hreach.lossless h.lossless, rfl, ?_, h.unacked, ?_, ?_, h.recvSeq,
    h.dispatched, ?_, h.acks, ?_⟩
  · exact congrArg (· + 1) h.sendSeq
  · simp [key, h.sendSeq]
  · exact congrArg (· ++ [payload]) h.passed
  · rw [List.map_append, ← List.append_assoc, h.wire, List.filterMap_append]
    simp [key, dataOf, h.sendSeq]
  · intro f hf
    rcases List.mem_append.mp hf with hf | hf
    · exact h.kept f (List.mem_append_left _ hf)
    · obtain rfl : f = (x.sendSeq, payload) := by simpa using hf
      exact hfits

/-- The frame enters `unacked`. -/
theorem Follows.keep (h : Follows x y out back a) {kept : UInt16 × Bytes}
    (hsome : x.sending = some kept) :
    ∃ a', Reaches role a a' ∧ Follows (x.keep kept) y out back a' := by
  obtain ⟨f, hsending, hkey⟩ : ∃ f, a.sending = some f ∧ key f = kept := by
    have := h.sending
    rwa [hsome, Option.map_eq_some_iff] at this
  have hstep : Link.step role a .keep = some (a.keepUnacked f) := by
    simp only [Link.step, hsending, h.lossless.phase]
  have hreach := Reaches.single (by simp) hstep
  have hlen : a.unacked.length = x.unacked.length := by
    rw [← h.unacked, List.length_map]
  refine ⟨_, hreach, hreach.lossless h.lossless, h.writer, h.sendSeq, ?_, rfl, h.passed, h.recvSeq,
    h.dispatched, h.wire, h.acks, ?_⟩
  · simp only [DataLink.keepUnacked, End.keep, hlen]
    split <;> simp [hkey, ← h.unacked]
  · intro g hg
    apply h.kept
    rw [hsome]
    simp only [End.keep, Option.toList_none, List.append_nil, Option.toList_some] at hg ⊢
    rcases List.mem_append.mp hg with hg | hg
    · refine List.mem_append_left _ ?_
      split at hg
      · exact List.mem_of_mem_drop hg
      · exact hg
    · exact List.mem_append_right _ hg

/-- The oldest frame is written once more. -/
theorem Follows.timer (h : Follows x y out back a) {f : UInt16 × Bytes} {rest : List (UInt16 × Bytes)}
    (hunacked : x.unacked = f :: rest) :
    ∃ a', Reaches role a a' ∧ Follows
      { x with writer := u, normal := x.normal ++ [.data f.1 f.2] } y out back a' := by
  obtain ⟨g, gs, hlist, hkey⟩ : ∃ g gs, a.unacked = g :: gs ∧ key g = f := by
    have hmap := h.unacked
    rw [hunacked] at hmap
    cases hlist : a.unacked with
    | nil => simp [hlist] at hmap
    | cons g gs =>
        rw [hlist, List.map_cons, List.cons.injEq] at hmap
        exact ⟨g, gs, rfl, hmap.1⟩
  have hstep : Link.step role a .timer = some (a.write g) := by
    simp [Link.step, h.lossless.phase, hlist, h.lossless.isOpen]
  have hwriter : (a.write g).writer = [g] := by
    rw [DataLink.write, h.writer, List.nil_append]
  have hreach := Reaches.written (by simp) hstep hwriter
  refine ⟨_, hreach, hreach.lossless h.lossless, rfl, h.sendSeq, h.unacked, h.sending, h.passed,
    h.recvSeq, h.dispatched, ?_, h.acks, h.kept⟩
  have hwire : (a.write g).wire = a.wire := rfl
  rw [List.map_append, ← List.append_assoc, hwire, h.wire, List.filterMap_append]
  subst hkey
  rfl

/-- The branch of an ACK shortens `unacked`. -/
theorem Follows.ack (h : Follows x y out back a) {seq : UInt16} {todo : List Handled}
    (htodo : x.todo = .dataAck seq :: todo) :
    ∃ a', Reaches role a a' ∧ Follows
      { x with todo := todo, unacked := x.unacked.dropWhile fun f => f.1 ≤ seq } y out back a' := by
  obtain ⟨flying, hflying, hacks⟩ := h.acks
  rw [htodo] at hacks
  have hfirst : a.acks = seq :: (todo.filterMap ackIn ++ flying ++ y.todo.filterMap ackDue) := hacks
  have hstep : Link.step role a .ack = some (DataLink.receiveAck
      { a with acks := todo.filterMap ackIn ++ flying ++ y.todo.filterMap ackDue } seq) := by
    simp only [Link.step, h.lossless.phase, hfirst]
  have hreach := Reaches.single (by simp) hstep
  refine ⟨_, hreach, hreach.lossless h.lossless, h.writer, h.sendSeq, ?_, h.sending, h.passed,
    h.recvSeq, h.dispatched, h.wire, ⟨flying, hflying, rfl⟩, ?_⟩
  · rw [← h.unacked, List.dropWhile_map]
    rfl
  · intro f hf
    apply h.kept
    rcases List.mem_append.mp hf with hf | hf
    · exact List.mem_append_left _ ((List.dropWhile_sublist _).subset hf)
    · exact List.mem_append_right _ hf

/-- The branch of a data frame puts the number on its way that was due. -/
theorem Follows.due (h : Follows x y out back a) {seq : UInt16} {handled : Handled}
    {todo : List Handled} (htodo : y.todo = handled :: todo) (hdue : ackDue handled = some seq) :
    Follows x { y with todo := todo, writer := u, priority := y.priority ++ [.dataAck seq] }
      out back a := by
  obtain ⟨flying, hflying, hacks⟩ := h.acks
  refine ⟨h.lossless, h.writer, h.sendSeq, h.unacked, h.sending, h.passed, h.recvSeq, h.dispatched,
    h.wire, ⟨flying ++ [seq], ?_, ?_⟩, h.kept⟩
  · rw [← List.append_assoc, hflying, List.filterMap_append]
    rfl
  · rw [hacks, htodo, List.filterMap_cons_some hdue]
    simp

/-- What the reader of the receiver parses arrives. -/
theorem Follows.arrive (h : Follows x y out back a) {r : Reader}
    (hpassed : Passed y.reader r (new.map Prod.snd))
    (hdata : ((out ++ new).map Prod.snd).filterMap dataOf <+: x.normal.filterMap dataOf) :
    ∃ a', Reaches role a a' ∧ Follows x
      { y with reader := r, todo := y.todo ++ r.handled.drop y.reader.handled.length }
      (out ++ new) back a' := by
  obtain ⟨flying, hflying, hacks⟩ := h.acks
  have hnew : (new.map Prod.snd).filterMap dataOf <+: a.wire.map key := by
    rw [← h.wire, List.map_append, List.filterMap_append] at hdata
    exact (List.prefix_append_right_inj _).mp hdata
  obtain ⟨a', hreach, harrives⟩ := exists_arrives (new.map Prod.snd) hnew
  have hdrop : r.handled.drop y.reader.handled.length =
      WireFrame.handledFrom y.reader.recvSeq (new.map Prod.snd) := by
    rw [hpassed.handled, List.drop_left]
  rw [hdrop]
  refine ⟨a', hreach, hreach.lossless h.lossless, harrives.writer.trans h.writer,
    harrives.sendSeq.trans h.sendSeq, harrives.unacked ▸ h.unacked, harrives.sending ▸ h.sending,
    harrives.passed.trans h.passed, ?_, ?_, ?_, ⟨flying, hflying, ?_⟩, h.kept⟩
  · rw [harrives.recvSeq, h.recvSeq, hpassed.recvSeq]
  · rw [harrives.dispatched, h.dispatched, h.recvSeq, hpassed.handled, List.filterMap_append]
  · rw [List.map_append, List.filterMap_append, List.append_assoc, ← harrives.wire, h.wire]
  · rw [harrives.acks, hacks, h.recvSeq, List.filterMap_append, List.append_assoc]

/-- What the reader of the sender parses has the next ACKs. -/
theorem Follows.answer (h : Follows x y out back a) {r : Reader}
    (hpassed : Passed x.reader r (new.map Prod.snd))
    (hacks : ((back ++ new).map Prod.snd).filterMap ackOf <+: y.priority.filterMap ackOf) :
    Follows { x with reader := r, todo := x.todo ++ r.handled.drop x.reader.handled.length } y
      out (back ++ new) a := by
  obtain ⟨flying, hflying, hacks'⟩ := h.acks
  obtain ⟨later, hlater⟩ : (new.map Prod.snd).filterMap ackOf <+: flying := by
    rw [← hflying, List.map_append, List.filterMap_append] at hacks
    exact (List.prefix_append_right_inj _).mp hacks
  refine ⟨h.lossless, h.writer, h.sendSeq, h.unacked, h.sending, h.passed, h.recvSeq, h.dispatched,
    h.wire, ⟨later, ?_, ?_⟩, h.kept⟩
  · rw [← hflying, ← hlater, List.map_append, List.filterMap_append, List.append_assoc]
  · rw [hacks', ← hlater, hpassed.handled, List.drop_left, List.filterMap_append,
      filterMap_handledFrom ackIn_handledAt]
    simp

end Follows

/-! ## Both directions -/

theorem fits_of_body {f : WireFrame} (h : f.body.length ≤ 3) : f.Fits := by
  have hlen : (writeVarint f.body.length).length ≤ 10 := writeVarintLoop_length_le 9 _
  rw [WireFrame.Fits, WireFrame.encode, List.length_append]
  omega

/-- The link `a` from `x` to `y` and the link `b` back. -/
structure Both (x y : End) (out back : List (Common.Class × WireFrame)) (a b : DataLink) :
    Prop where
  carriesOut : Carried x y out
  carriesBack : Carried y x back
  followsOut : Follows x y out back a
  followsBack : Follows y x back out b

section Both

variable {x x' y : End} {out back : List (Common.Class × WireFrame)} {a b : DataLink}
  {role role' : Link.Role} {sock : Role → Socket}

theorem Both.start : Both {} {} [] [] {} {} := ⟨.start, .start, .start, .start⟩

theorem Both.symm (h : Both x y out back a b) : Both y x back out b a :=
  ⟨h.carriesBack, h.carriesOut, h.followsBack, h.followsOut⟩

/-- A read takes what comes next. -/
theorem Carried.inFlight (h : Carried y x back) (n : Nat) :
    x.got ++ (y.sent.drop x.got.length).take n <+: y.sent := by
  obtain ⟨rest, hrest⟩ := h.got
  rw [← hrest, List.drop_left]
  exact (List.prefix_append_right_inj _).mpr (List.take_prefix _ _)

theorem Both.read (h : Both x y out back a b) {side : Role} {n : Nat}
    (hstep : x.read side y n = some x') :
    ∃ back' b', Reaches role b b' ∧ Both x' y out back' a b' := by
  rw [End.read] at hstep
  split at hstep
  · obtain ⟨r, hreceive, rfl⟩ := Option.map_eq_some_iff.mp hstep
    obtain ⟨r', new, hreceive', hpassed, hcarried⟩ := h.carriesBack.receive (h.carriesBack.inFlight n) side
    obtain rfl : r = r' := Option.some.inj (hreceive.symm.trans hreceive')
    have hback := hcarried
      { x with reader := r, todo := x.todo ++ r.handled.drop x.reader.handled.length } rfl
    obtain ⟨b', hreach, hfollows⟩ := h.followsBack.arrive hpassed hback.data_prefix
    exact ⟨back ++ new, b', hreach, h.carriesOut.congr rfl rfl rfl, hback,
      h.followsOut.answer hpassed hback.ack_prefix, hfollows⟩
  · cases hstep

/-- The branch of the next frame. -/
theorem Both.handle (hsock : ∀ side, (sock side).NoErrors) (h : Both x y out back a b)
    {handled : Handled} {todo : List Handled} (htodo : x.todo = handled :: todo) {side : Role}
    (hclear : x.Clear (sock side) (.handle side))
    (hstep : { x with todo := todo }.handle (sock side) handled = some x') :
    ∃ a', Reaches role a a' ∧ Both x' y out back a' b := by
  obtain ⟨hout, hback, hfollows, hfollowsBack⟩ := h
  -- a branch that neither acknowledges nor is about an ACK
  have hquiet : ackIn handled = none → ackDue handled = none →
      todo.filterMap ackIn = x.todo.filterMap ackIn ∧
        todo.filterMap ackDue = x.todo.filterMap ackDue := by
    intro hin hdue
    rw [htodo, List.filterMap_cons_none hin, List.filterMap_cons_none hdue]
    exact ⟨rfl, rfl⟩
  cases handled with
  | data seq payload | duplicate seq =>
      have hwrite : ({ x with todo := todo } : End).writePriority (sock side) (.dataAck seq) =
        some x' := hstep
      obtain ⟨u, hcall, rfl⟩ := Option.map_eq_some_iff.mp hwrite
      have hfits : (WireFrame.dataAck seq).Fits := fits_of_body (by simp [WireFrame.body])
      refine ⟨a, .refl a, hout.writePriority (f := .dataAck seq) (hsock side) hfits trivial hcall rfl
        rfl rfl, hback.congr rfl rfl rfl, ?_, hfollowsBack.due htodo rfl⟩
      refine hfollows.congr rfl rfl rfl rfl rfl ?_ rfl rfl rfl
      rw [htodo]
      rfl
  | dataAck seq =>
      obtain rfl := Option.some.inj hstep
      obtain ⟨a', hreach, hfollows⟩ := hfollows.ack htodo
      refine ⟨a', hreach, hout.congr rfl rfl rfl, hback.congr rfl rfl rfl, hfollows, ?_⟩
      refine hfollowsBack.congr rfl rfl rfl rfl rfl rfl rfl rfl ?_
      rw [htodo]
      rfl
  | ping =>
      have hwrite : ({ x with todo := todo } : End).write (sock side) .pong = some x' := hstep
      obtain ⟨u, hcall, rfl⟩ := Option.map_eq_some_iff.mp hwrite
      obtain ⟨hin, hdue⟩ := hquiet rfl rfl
      have hclean := hclear.1 .pong (by simp [End.normalFrame, htodo])
      have hfits : WireFrame.pong.Fits := fits_of_body (by simp [WireFrame.body])
      refine ⟨a, .refl a, hout.write (f := .pong) (hsock side) hfits trivial hclean hcall rfl rfl rfl,
        hback.congr rfl rfl rfl, ?_, ?_⟩
      · exact hfollows.congr rfl rfl rfl rfl (by simp [dataOf]) hin rfl rfl rfl
      · exact hfollowsBack.congr rfl rfl rfl rfl rfl rfl rfl rfl hdue
  | pong | shutdown | skippedShutdown | control | unparsed | shortData | shortShutdown | violation
  | overflow =>
      obtain rfl := Option.some.inj hstep
      obtain ⟨hin, hdue⟩ := hquiet rfl rfl
      exact ⟨a, .refl a, hout.congr rfl rfl rfl, hback.congr rfl rfl rfl,
        hfollows.congr rfl rfl rfl rfl rfl hin rfl rfl rfl,
        hfollowsBack.congr rfl rfl rfl rfl rfl rfl rfl rfl hdue⟩

/-- A step of an end is a few steps of the two links. -/
theorem Both.step (hsock : ∀ side, (sock side).NoErrors) (h : Both x y out back a b) {l : Step}
    (hfits : x.Fits l) (hclear : x.Clear (sock l.side) l) (hstep : x.step sock y l = some x') :
    ∃ back' a' b', Reaches role a a' ∧ Reaches role' b b' ∧ Both x' y out back' a' b' := by
  cases l with
  | send side payload =>
      simp only [End.step] at hstep
      split at hstep
      · cases hstep
      · rename_i hsending
        have hnone : x.sending = none := by simpa using hsending
        obtain ⟨e, hwrite, rfl⟩ := Option.map_eq_some_iff.mp hstep
        obtain ⟨u, hcall, rfl⟩ := Option.map_eq_some_iff.mp hwrite
        obtain ⟨a', hreach, hfollows⟩ := h.followsOut.send hnone hfits
        exact ⟨back, a', b, hreach, .refl b,
          h.carriesOut.write (hsock side) hfits trivial (hclear.1 _ rfl) hcall rfl rfl rfl,
          h.carriesBack.congr rfl rfl rfl, hfollows,
          h.followsBack.congr rfl rfl rfl rfl rfl rfl rfl rfl rfl⟩
  | keep side =>
      obtain ⟨kept, hsome, rfl⟩ := Option.map_eq_some_iff.mp hstep
      obtain ⟨a', hreach, hfollows⟩ := h.followsOut.keep hsome
      exact ⟨back, a', b, hreach, .refl b, h.carriesOut.congr rfl rfl rfl, h.carriesBack.congr rfl rfl rfl,
        hfollows, h.followsBack.congr rfl rfl rfl rfl rfl rfl rfl rfl rfl⟩
  | timer side =>
      simp only [End.step] at hstep
      split at hstep
      · cases hstep
      · rename_i f rest hunacked
        obtain ⟨u, hcall, rfl⟩ := Option.map_eq_some_iff.mp hstep
        obtain ⟨a', hreach, hfollows⟩ := h.followsOut.timer hunacked
        have hkept := h.followsOut.kept f (by simp [hunacked])
        have hclean := hclear.1 (.data f.1 f.2) (by simp [End.normalFrame, hunacked])
        exact ⟨back, a', b, hreach, .refl b,
          h.carriesOut.write (hsock side) hkept trivial hclean hcall rfl rfl rfl,
          h.carriesBack.congr rfl rfl rfl, hfollows,
          h.followsBack.congr rfl rfl rfl rfl rfl rfl rfl rfl rfl⟩
  | ping side =>
      obtain ⟨u, hcall, rfl⟩ := Option.map_eq_some_iff.mp hstep
      exact ⟨back, a, b, .refl a, .refl b,
        h.carriesOut.write (f := .ping) (hsock side) (fits_of_body (by simp [WireFrame.body])) trivial
          (hclear.1 _ rfl) hcall rfl rfl rfl,
        h.carriesBack.congr rfl rfl rfl,
        h.followsOut.congr rfl rfl rfl rfl (by simp [dataOf]) rfl rfl rfl rfl,
        h.followsBack.congr rfl rfl rfl rfl rfl rfl rfl rfl rfl⟩
  | control side seq pkt =>
      simp only [End.step, End.writePriority, Option.map_eq_some_iff] at hstep
      obtain ⟨u, hcall, rfl⟩ := hstep
      exact ⟨back, a, b, .refl a, .refl b,
        h.carriesOut.writePriority (hsock side) hfits trivial hcall rfl rfl rfl,
        h.carriesBack.congr rfl rfl rfl,
        h.followsOut.congr rfl rfl rfl rfl rfl rfl rfl rfl rfl,
        h.followsBack.congr rfl rfl rfl rfl rfl rfl rfl (by simp [ackOf]) rfl⟩
  | flush side =>
      obtain ⟨u, hcall, rfl⟩ := Option.map_eq_some_iff.mp hstep
      exact ⟨back, a, b, .refl a, .refl b, h.carriesOut.flush (hsock side) (hclear.2 rfl) hcall rfl rfl,
        h.carriesBack.congr rfl rfl rfl, h.followsOut.congr rfl rfl rfl rfl rfl rfl rfl rfl rfl,
        h.followsBack.congr rfl rfl rfl rfl rfl rfl rfl rfl rfl⟩
  | read side n =>
      obtain ⟨back', b', hreach, hboth⟩ := h.read hstep
      exact ⟨back', a, b', .refl a, hreach, hboth⟩
  | handle side =>
      simp only [End.step] at hstep
      split at hstep
      · cases hstep
      · rename_i handled todo htodo
        obtain ⟨a', hreach, hboth⟩ := h.handle hsock htodo hclear hstep
        exact ⟨back, a', b, hreach, .refl b, hboth⟩

end Both

end PipelineTunnel.Conn
