import PipelineTunnel.Flow.EndOfStream
import PipelineTunnel.Stack.Model

/-!
# Streams across the whole tunnel

Every connection of the receiving side has been handed, in order and without a gap, a prefix of
what was read from its counterpart, whatever the module list, the scheduling of both chains, the
losses and reconnects of the data connections and the behaviour of the sockets; all of it once its
control packet has come, and all of it once nothing is on its way.

## Implementation notes

Each step is a step of the tunnel of the two chains or leaves the chains as they are: a data
connection hands on what it accepted in order (`Carried`), so the next frame that it dispatches is
the next output of its port.
-/

namespace PipelineTunnel.Stack

open StepSystem
open Pipeline (Pool ModuleContext Transformer Tunnel tunnelProcess InUse)
open Link (DataLink Role)
open Common (Channel Socket Kept)

variable {role : Role}

/-! ## One data connection -/

/-- What a chain wrote to one port. -/
def outputs (wire : List (Int × Bytes)) (port : Int) : List Bytes :=
  (wire.filter (·.1 = port)).map Prod.snd

theorem outputs_append_self (wire : List (Int × Bytes)) (port : Int) (data : Bytes) :
    outputs (wire ++ [(port, data)]) port = outputs wire port ++ [data] := by
  simp [outputs]

theorem outputs_append_other {wire : List (Int × Bytes)} {port q : Int} (hne : port ≠ q)
    (data : Bytes) : outputs (wire ++ [(port, data)]) q = outputs wire q := by
  simp [outputs, hne]

/-- The data connection has accepted `written`, and `pushed` of these have been handed on. -/
structure Carried (written : List Bytes) (link : DataLink) (pushed : Nat) : Prop where
  ordered : Link.Ordered link
  accepted : link.accepted = written
  pushed : link.dispatched.length = pushed

namespace Carried

variable {written : List Bytes} {link link' : DataLink} {pushed : Nat}

theorem send (h : Carried written link pushed) (hopen : link.isOpen = true) {data : Bytes}
    (hstep : Link.step role link (.send data) = some link') :
    Carried (written ++ [data]) link' pushed := by
  cases Link.step_moves hstep with
  | send _ hnone =>
      refine ⟨h.ordered.wireWrite hnone data, ?_, ?_⟩
      · rw [DataLink.wireWrite, if_pos hopen, ← h.accepted]
      · rw [DataLink.wireWrite, if_pos hopen]
        exact h.pushed

theorem keep (h : Carried written link pushed) (hstep : Link.step role link .keep = some link') :
    Carried written link' pushed := by
  cases Link.step_moves hstep with
  | keep hsome hphase => exact ⟨h.ordered.keepUnacked hsome hphase, h.accepted, h.pushed⟩

/-- A frame that is dispatched is the next one that was written. -/
theorem move (h : Carried written link pushed) {l : Link.Step} (hround : Link.WithinRound link l)
    (hsend : ∀ data, l ≠ .send data) (hstep : Link.step role link l = some link') :
    (link'.dispatched = link.dispatched ∧ Carried written link' pushed) ∨
      ∃ f, link'.dispatched = link.dispatched ++ [f] ∧ written[pushed]? = some f.payload ∧
        Carried written link' (pushed + 1) := by
  have hordered := h.ordered.step hround hstep
  obtain ⟨haccepted, hsame | ⟨-, f, hnew⟩⟩ := Link.moves_dispatched (Link.step_moves hstep) hsend
  · refine .inl ⟨hsame, hordered, haccepted.trans h.accepted, ?_⟩
    rw [hsame]
    exact h.pushed
  · refine .inr ⟨f, hnew, ?_, hordered, haccepted.trans h.accepted, ?_⟩
    · have hpayloads := hordered.payloads
      rw [haccepted, h.accepted, hnew, List.map_append, List.length_append, h.pushed] at hpayloads
      have hget := congrArg (·[pushed]?) hpayloads
      simp only [List.getElem?_take, List.length_singleton] at hget
      rw [if_pos (by omega), List.getElem?_append_right (by simp [h.pushed])] at hget
      simpa [h.pushed] using hget.symm
    · rw [hnew, List.length_append, h.pushed]
      rfl

end Carried

/-! ## Items and packets -/

variable (role) in
/-- A packet with a connection id other than 255 is read back as what it was made from. -/
theorem parsePacket_packet {item : Item} (h : ∀ connId chunk, item = .data connId chunk →
    connId ≠ 255) : parsePacket role (item.packet role) = some item := by
  cases item with
  | data connId chunk => simp [Item.packet, parsePacket, h connId chunk rfl]
  | control connId => simp [Item.packet, parsePacket]

variable (role) in
theorem filterMap_packets {items : List Item} (h : ∀ connId chunk, .data connId chunk ∈ items →
    connId ≠ 255) : (items.map (Item.packet role)).filterMap (parsePacket role) = items := by
  induction items with
  | nil => rfl
  | cons item items ih =>
      have hparse : parsePacket role (item.packet role) = some item := by
        apply parsePacket_packet
        rintro connId chunk rfl
        exact h connId chunk List.mem_cons_self
      rw [List.map_cons, List.filterMap_cons_some hparse, ih]
      exact fun connId chunk hmem => h connId chunk (List.mem_cons_of_mem item hmem)

theorem bytesOf_append (connId : UInt8) (items items' : List Item) :
    bytesOf connId (items ++ items') = bytesOf connId items ++ bytesOf connId items' :=
  List.flatMap_append

/-- No data of a connection comes behind its control packet. -/
def EndsLast (items : List Item) : Prop :=
  items.Pairwise fun x y => ∀ connId chunk, x = .control connId → y ≠ .data connId chunk

theorem EndsLast.concat {items : List Item} (h : EndsLast items) {item : Item}
    (hitem : ∀ connId chunk, item = .data connId chunk → .control connId ∉ items) :
    EndsLast (items ++ [item]) := by
  refine List.pairwise_append.mpr ⟨h, List.pairwise_singleton _ _, ?_⟩
  intro x hx y hy connId chunk hcontrol hdata
  rw [List.mem_singleton.mp hy] at hdata
  exact hitem connId chunk hdata (hcontrol ▸ hx)

/-- The writer of a connection has been handed the bytes of `items`. -/
structure Sink.Holds (sink : Sink) (connId : UInt8) (items : List Item) : Prop where
  kept : Kept sink.writer (bytesOf connId items)
  ended : sink.ended = true ↔ .control connId ∈ items

namespace Sink.Holds

variable {sink : Sink} {connId : UInt8} {items : List Item}

/-- Items of other connections do not concern it. -/
theorem other (h : sink.Holds connId items) {item : Item}
    (hdata : ∀ c chunk, item = .data c chunk → c ≠ connId)
    (hcontrol : item ≠ .control connId) : sink.Holds connId (items ++ [item]) := by
  have hbytes : bytesOf connId [item] = [] := by
    cases item with
    | data c chunk => simp [bytesOf, hdata c chunk rfl]
    | control c => rfl
  refine ⟨?_, ?_⟩
  · rw [bytesOf_append, hbytes, List.append_nil]
    exact h.kept
  · rw [h.ended, List.mem_append, List.mem_singleton]
    exact ⟨.inl, fun hmem => hmem.resolve_right fun heq => hcontrol heq.symm⟩

theorem write {sock : Socket} (hsock : sock.Reliable) (h : sink.Holds connId items)
    {payload : Bytes} {r : Channel × Int} (hwrite : Common.write sock sink.writer payload = some r) :
    { sink with writer := r.1 }.Holds connId (items ++ [Item.data connId payload]) := by
  refine ⟨?_, ?_⟩
  · have hkept := h.kept.write hsock hwrite
    rw [bytesOf_append]
    simpa [bytesOf] using hkept
  · rw [List.mem_append, List.mem_singleton]
    refine h.ended.trans ⟨.inl, ?_⟩
    rintro (hmem | heq)
    · exact hmem
    · cases heq

theorem control (h : sink.Holds connId items) :
    { sink with ended := true }.Holds connId (items ++ [Item.control connId]) := by
  refine ⟨?_, ?_⟩
  · rw [bytesOf_append]
    simpa [bytesOf] using h.kept
  · simp

theorem flush {sock : Socket} (hsock : sock.Reliable) (h : sink.Holds connId items)
    {r : Channel × Bool} (hflush : Common.flush sock sink.writer = some r) :
    { sink with writer := r.1 }.Holds connId items :=
  ⟨(h.kept.flush hsock hflush).1, h.ended⟩

end Sink.Holds

/-- Every connection of the receiving side holds the bytes of `items`. -/
def Holding (known : UInt8 → Bool) (conns : UInt8 → Option Sink) (items : List Item) : Prop :=
  ∀ connId, known connId = true → ∃ sink, conns connId = some sink ∧ sink.Holds connId items

section Handling

variable {known : UInt8 → Bool} {sock : UInt8 → Socket} {s s' : System} {items : List Item}

/-- One sink changes, and the others hold what is added as it is. -/
theorem Holding.update {conns : UInt8 → Option Sink} (h : Holding known conns items)
    {items' : List Item} {connId : UInt8} {sink sink' : Sink} (hget : conns connId = some sink)
    (hsink : sink.Holds connId items → sink'.Holds connId items')
    (hother : ∀ c (held : Sink), c ≠ connId → held.Holds c items → held.Holds c items') :
    Holding known (Function.update conns connId (some sink')) items' := by
  intro c hc
  obtain ⟨held, hheld, hholds⟩ := h c hc
  by_cases heq : c = connId
  · subst heq
    obtain rfl := Option.some.inj (hget.symm.trans hheld)
    exact ⟨sink', Function.update_self .., hsink hholds⟩
  · exact ⟨held, by rw [Function.update_of_ne heq, hheld], hother c held heq hholds⟩

/-- An item of a connection that the receiving side does not know is dropped. -/
theorem Holding.unknown {conns : UInt8 → Option Sink} (h : Holding known conns items) {item : Item}
    {connId : UInt8} (hnone : conns connId = none)
    (hdata : ∀ c chunk, item = .data c chunk → c = connId)
    (hcontrol : ∀ c, item = .control c → c = connId) : Holding known conns (items ++ [item]) := by
  intro c hc
  obtain ⟨sink, hget, hholds⟩ := h c hc
  have hne : c ≠ connId := by
    rintro rfl
    rw [hnone] at hget
    cases hget
  refine ⟨sink, hget, hholds.other ?_ ?_⟩
  · intro c' chunk hitem heq
    exact hne (heq.symm.trans (hdata c' chunk hitem))
  · intro hitem
    exact hne (hcontrol c hitem)

/-- `wire_write` adds what it was passed to what the connections hold. -/
theorem Holding.handle (hsock : ∀ connId, (sock connId).Reliable) (h : Holding known s.conns items)
    {item : Option Item} (hhandle : s.handle sock item = some s') :
    Holding known s'.conns (items ++ item.toList) ∧ s'.a = s.a ∧ s'.b = s.b ∧
      s'.links = s.links ∧ s'.log = s.log := by
  match item with
  | none =>
      obtain rfl := Option.some.inj hhandle
      rw [Option.toList_none, List.append_nil]
      exact ⟨h, rfl, rfl, rfl, rfl⟩
  | some (.data connId payload) =>
      simp only [System.handle] at hhandle
      cases hget : s.conns connId with
      | none =>
          rw [hget] at hhandle
          obtain rfl := Option.some.inj hhandle
          exact ⟨h.unknown hget (by rintro c chunk ⟨rfl, rfl⟩; rfl) nofun, rfl, rfl, rfl, rfl⟩
      | some sink =>
          rw [hget] at hhandle
          obtain ⟨r, hwrite, rfl⟩ := Option.map_eq_some_iff.mp hhandle
          refine ⟨?_, rfl, rfl, rfl, rfl⟩
          apply h.update hget
          · exact fun hholds => hholds.write (hsock connId) hwrite
          · rintro c held hne hholds
            exact hholds.other (by rintro c' chunk ⟨rfl, rfl⟩; exact fun heq => hne heq.symm) nofun
  | some (.control connId) =>
      simp only [System.handle] at hhandle
      cases hget : s.conns connId with
      | none =>
          rw [hget] at hhandle
          obtain rfl := Option.some.inj hhandle
          exact ⟨h.unknown hget nofun (by rintro c ⟨rfl⟩; rfl), rfl, rfl, rfl, rfl⟩
      | some sink =>
          rw [hget] at hhandle
          obtain rfl := Option.some.inj hhandle
          refine ⟨?_, rfl, rfl, rfl, rfl⟩
          apply h.update hget
          · exact Sink.Holds.control
          · intro c held hne hholds
            exact hholds.other nofun (by rintro ⟨rfl⟩; exact hne rfl)

end Handling

/-! ## The chains -/

section Chains

variable {tr : Nat → Transformer} {size n outs ports : Nat} {d : Pipeline.Dir}
  {sc sc' : Split.SplitContext} {p p' : Pool ModuleContext}

/-- A chain with modules hands nothing to `wire_write` during `push_packet`. -/
theorem push_wire {entry : Nat} (hentry : p.chain.entryExt = some entry) {i : Pipeline.Input}
    (hpush : p.push i = some p') : p'.wire = p.wire ∧ p'.pushed = p.pushed ++ [i] := by
  have hstep : p.step tunnelProcess (.push i.src i.dir i.data) = some p' := hpush
  rcases Pool.push_inv hstep with ⟨-, rfl⟩ | ⟨dst, hpass, -⟩ | ⟨m, -, rfl⟩
  · exact ⟨rfl, rfl⟩
  · cases hdir : i.dir <;> simp [Pipeline.pushPacket, hentry, hdir] at hpass
    split at hpass
    · cases hpass
    · split at hpass <;> cases hpass
  · exact ⟨rfl, rfl⟩

theorem move_wire {net net' : Pipeline.Net ModuleContext}
    (h : Pipeline.Steady tr size n outs ports d sc net)
    (hmove : Pipeline.Steady.Move tr size n ports d sc net sc' net') :
    net'.wire = net.wire ∨ ∃ w, net'.wire = net.wire ++ [w] ∧ (d = .encode → w.2 ≠ []) := by
  cases hmove with
  | @exit m i src dst q y rest _ hout =>
      refine .inr ⟨_, rfl, fun hd => ?_⟩
      exact h.writes hd m (src, dst, y) (hout ▸ List.mem_cons_self)
  | transform | split | merge | forward => exact .inl rfl

/-- A worker of a chain in use makes one `wire_write` at a time, and an encoding chain never an
empty one. -/
theorem work_wire (hsingle : p.Single) (h : Pipeline.Steady tr size n outs ports d sc p.net)
    (hn : n + 1 < size ∨ n = size) {act : Pipeline.Action} (hpush : ¬act.isPush)
    (hstep : p.step tunnelProcess act = some p') :
    p'.pushed = p.pushed ∧
      (p'.wire = p.wire ∨ ∃ w, p'.wire = p.wire ++ [w] ∧ (d = .encode → w.2 ≠ [])) := by
  have hnot := InUse.isPush_eq_false hpush
  refine ⟨Pool.pushed_eq hnot hstep, ?_⟩
  rcases hsingle.net_work hnot hstep with hnet | hwork
  · exact .inl (congrArg Pipeline.Net.wire hnet)
  · obtain ⟨sc', hmove⟩ := h.move hn hwork
    exact move_wire h hmove

end Chains

/-! ## The invariant -/

/-- The two chains are in use, every data connection carries what A wrote to its port, and the
connections of the receiving side hold what B handed over. -/
structure Sound (tr : Nat → Transformer) (size n outs ports : Nat) (role : Role)
    (known : UInt8 → Bool) (s : System) : Prop where
  chains : ∃ sc sc', InUse tr size n outs ports sc sc' s.tunnel
  filled : ∀ w ∈ s.a.wire, w.2 ≠ []
  carried : ∀ p, Carried (outputs s.a.wire p) (s.links p) (s.b.pushed.filter (·.src = p)).length
  sent : s.tunnel.sent = s.log.map (Item.packet role)
  ids : ∀ connId chunk, .data connId chunk ∈ s.log → connId ≠ 255
  last : EndsLast s.log
  holding : Holding known s.conns (s.tunnel.received.filterMap (parsePacket role))

namespace Sound

variable {tr : Nat → Transformer} {size n outs ports : Nat} {known : UInt8 → Bool}
  {sock : UInt8 → Socket} {s s' : System}

theorem push (h : Sound tr size n outs ports role known s) (hsize : 0 < size)
    (hn : n + 1 < size ∨ n = size) {item : Item}
    (hid : ∀ connId chunk, item = .data connId chunk → connId ≠ 255 ∧ .control connId ∉ s.log)
    (hpacket : (item.packet role ≠ [] ∧
        (Pipeline.encoded tr n (item.packet role)).length < 2 ^ 31) ∧
      s.tunnel.sent.length + 1 < 2 ^ 32 - 32768 ∧
      s.tunnel.sent.length + 1 < s.tunnel.received.length + 16384)
    (hpush : s.push role item = some s') : Sound tr size n outs ports role known s' := by
  obtain ⟨sc, sc', huse⟩ := h.chains
  obtain ⟨a, ha, hemit⟩ := Option.bind_eq_some_iff.mp hpush
  have hentry : s.a.chain.entryExt = some 0 := huse.encodes.fitted.routes.entry
  obtain ⟨hwire, hpushed⟩ := push_wire hentry ha
  have hs' : s' = { s with a := a, log := s.log ++ [item] } := by
    simp only [System.emit, hwire, List.drop_length] at hemit
    exact (Option.some.inj hemit).symm
  have hstep : s.tunnel.step (.push 0 (item.packet role)) = some s'.tunnel := by
    rw [hs', Tunnel.step]
    exact Option.map_eq_some_iff.mpr ⟨a, ha, rfl⟩
  have hsent : s'.tunnel.sent = s.tunnel.sent ++ [item.packet role] := by
    rw [hs', Tunnel.sent, Tunnel.sent]
    simp [System.tunnel, hpushed]
  refine ⟨huse.step hsize hn ?_ hstep, ?_, ?_, ?_, ?_, ?_, ?_⟩
  · rintro src x ⟨rfl, rfl⟩
    exact hpacket
  · rw [hs']
    exact hwire ▸ h.filled
  · rw [hs']
    exact hwire ▸ h.carried
  · rw [hsent, h.sent, hs', List.map_append]
    rfl
  · rw [hs']
    intro connId chunk hmem
    rcases List.mem_append.mp hmem with hmem | hmem
    · exact h.ids connId chunk hmem
    · exact (hid connId chunk (List.mem_singleton.mp hmem).symm).1
  · rw [hs']
    exact h.last.concat fun connId chunk heq => (hid connId chunk heq).2
  · rw [hs']
    exact h.holding

/-- A call of `wire_write` goes to the data connection of its port. -/
theorem carried_send (h : Sound tr size n outs ports role known s) {port : Int} {data : Bytes}
    (hopen : (s.links port).isOpen = true) {link : DataLink}
    (hsend : Link.step role (s.links port) (.send data) = some link) (p : Int) :
    Carried (outputs (s.a.wire ++ [(port, data)]) p) (Function.update s.links port link p)
      (s.b.pushed.filter (·.src = p)).length := by
  by_cases heq : p = port
  · subst heq
    rw [outputs_append_self, Function.update_self]
    exact (h.carried p).send hopen hsend
  · rw [outputs_append_other (Ne.symm heq), Function.update_of_ne heq]
    exact h.carried p

theorem workA (h : Sound tr size n outs ports role known s) (hsize : 0 < size)
    (hn : n + 1 < size ∨ n = size) {act : Pipeline.Action}
    (hopen : ∀ a ∈ s.a.step tunnelProcess act, ∀ w ∈ a.wire.drop s.a.wire.length,
      (s.links w.1).isOpen = true)
    (hstep : s.step sock role (.workA act) = some s') :
    Sound tr size n outs ports role known s' := by
  obtain ⟨sc, sc', huse⟩ := h.chains
  simp only [System.step] at hstep
  split_ifs at hstep with hidle
  obtain ⟨hpush, -⟩ := not_or.mp hidle
  obtain ⟨a, ha, hemit⟩ := Option.bind_eq_some_iff.mp hstep
  have htunnel : s.tunnel.step (.workA act) = some ⟨a, s.b⟩ := by
    rw [Tunnel.step, if_neg hpush]
    exact Option.map_eq_some_iff.mpr ⟨a, ha, rfl⟩
  have huse' : ∃ sc sc', InUse tr size n outs ports sc sc' ⟨a, s.b⟩ :=
    huse.step hsize hn (by rintro src x ⟨⟩) htunnel
  obtain ⟨hpushed, hwire⟩ : a.pushed = s.a.pushed ∧
      (a.wire = s.a.wire ∨ ∃ w : Int × Bytes, a.wire = s.a.wire ++ [w] ∧
        (Pipeline.Dir.encode = .encode → w.2 ≠ [])) :=
    work_wire huse.singleA huse.encodes hn hpush ha
  have hsent : (Tunnel.mk a s.b).sent = s.log.map (Item.packet role) := by
    rw [← h.sent, Tunnel.sent, Tunnel.sent]
    exact congrArg (List.map Pipeline.Input.data) hpushed
  rcases hwire with hwire | ⟨⟨port, data⟩, hwire, hfilled⟩
  · simp only [System.emit, hwire, List.drop_length] at hemit
    obtain rfl := Option.some.inj hemit
    exact ⟨huse', hwire ▸ h.filled, hwire ▸ h.carried, hsent, h.ids, h.last, h.holding⟩
  · simp only [System.emit, hwire, List.drop_left] at hemit
    obtain ⟨link, hsend, rfl⟩ := Option.map_eq_some_iff.mp hemit
    have hport := hopen a ha (port, data) (by simp [hwire])
    refine ⟨huse', ?_, ?_, hsent, h.ids, h.last, h.holding⟩
    · show ∀ w ∈ a.wire, w.2 ≠ []
      rw [hwire]
      intro w hw
      rcases List.mem_append.mp hw with hw | hw
      · exact h.filled w hw
      · rw [List.mem_singleton.mp hw]
        exact hfilled rfl
    · show ∀ p, Carried (outputs a.wire p) _ _
      rw [hwire]
      exact h.carried_send hport hsend

theorem keep (h : Sound tr size n outs ports role known s)
    (hstep : s.step sock role .keep = some s') : Sound tr size n outs ports role known s' := by
  obtain ⟨port, -, hkeep⟩ := Option.bind_eq_some_iff.mp hstep
  obtain ⟨link, hlink, rfl⟩ := Option.map_eq_some_iff.mp hkeep
  refine ⟨h.chains, h.filled, fun p => ?_, h.sent, h.ids, h.last, h.holding⟩
  show Carried _ (Function.update s.links port link p) _
  by_cases heq : p = port
  · subst heq
    rw [Function.update_self]
    exact (h.carried p).keep hlink
  · rw [Function.update_of_ne heq]
    exact h.carried p

/-- The output of A that a data connection dispatches next. -/
theorem next_output (h : Sound tr size n outs ports role known s) {port : Int} {payload : Bytes}
    (hnext : (outputs s.a.wire port)[(s.b.pushed.filter (·.src = port)).length]? = some payload) :
    ¬payload.length < 1 ∧ s.tunnel.nextOutput port = some payload := by
  constructor
  · obtain ⟨w, hw, rfl⟩ := List.mem_map.mp (List.mem_of_getElem? hnext)
    have := List.length_pos_iff.mpr (h.filled w (List.mem_filter.mp hw).1)
    omega
  · rw [outputs, List.getElem?_map] at hnext
    exact hnext

/-- A frame that a data connection dispatches is the next output of its port, and is pushed into
chain B. -/
theorem dispatch (h : Sound tr size n outs ports role known s) (hsize : 0 < size)
    (hn : n + 1 < size ∨ n = size) {port : Int} {link : DataLink} {f : Link.Frame}
    (hnext : (outputs s.a.wire port)[(s.b.pushed.filter (·.src = port)).length]? = some f.payload)
    (hlink : Carried (outputs s.a.wire port) link
      ((s.b.pushed.filter (·.src = port)).length + 1))
    (hdispatch : { s with links := Function.update s.links port link }.dispatch port f.payload =
      some s') : Sound tr size n outs ports role known s' := by
  obtain ⟨sc, sc', huse⟩ := h.chains
  obtain ⟨hfilled, houtput⟩ := h.next_output hnext
  rw [System.dispatch, if_neg hfilled] at hdispatch
  obtain ⟨b, hb, rfl⟩ := Option.map_eq_some_iff.mp hdispatch
  obtain ⟨hport, -⟩ := huse.entry houtput
  have htunnel : s.tunnel.step (.deliver port) = some ⟨s.a, b⟩ := by
    rw [Tunnel.step, if_neg (by omega), houtput]
    exact Option.map_eq_some_iff.mpr ⟨b, hb, rfl⟩
  have hentry : s.b.chain.entryExt = some 0 := huse.decodes.fitted.routes.entry
  obtain ⟨hwire, hpushed⟩ := push_wire hentry hb
  have hreceived : (Tunnel.mk s.a b).received = s.tunnel.received := by
    simp only [Tunnel.received, System.tunnel, hwire]
  refine ⟨huse.step hsize hn (by rintro src x ⟨⟩) htunnel, h.filled, fun p => ?_, h.sent, h.ids,
    h.last, ?_⟩
  · show Carried _ (Function.update s.links port link p) (b.pushed.filter (·.src = p)).length
    rw [hpushed, List.filter_append, List.length_append]
    by_cases heq : p = port
    · subst heq
      rw [Function.update_self]
      simpa using hlink
    · rw [Function.update_of_ne heq]
      simpa [Ne.symm heq] using h.carried p
  · show Holding known s.conns ((Tunnel.mk s.a b).received.filterMap _)
    rw [hreceived]
    exact h.holding

theorem link (h : Sound tr size n outs ports role known s) (hsize : 0 < size)
    (hn : n + 1 < size ∨ n = size) {port : Int} {l : Link.Step}
    (hround : Link.WithinRound (s.links port) l) (hstep : s.step sock role (.link port l) = some s') :
    Sound tr size n outs ports role known s' := by
  have hsend : ∀ data, l ≠ .send data := by
    rintro data rfl
    cases hstep
  have hgo : (Link.step role (s.links port) l).bind (s.advance port) = some s' := by
    cases l with
    | send data => exact absurd rfl (hsend data)
    | keep => cases hstep
    | flush | deliver | ack | timer | lose | reopen | clear | resend => exact hstep
  obtain ⟨link, hlink, hrest⟩ := Option.bind_eq_some_iff.mp hgo
  rw [System.advance] at hrest
  rcases (h.carried port).move hround hsend hlink with ⟨hsame, hcarried⟩ | ⟨f, hnew, hnext, hcarried⟩
  · rw [hsame, List.drop_length] at hrest
    obtain rfl := Option.some.inj hrest
    refine ⟨h.chains, h.filled, fun p => ?_, h.sent, h.ids, h.last, h.holding⟩
    show Carried _ (Function.update s.links port link p) _
    by_cases heq : p = port
    · subst heq
      rw [Function.update_self]
      exact hcarried
    · rw [Function.update_of_ne heq]
      exact h.carried p
  · rw [hnew, List.drop_left] at hrest
    exact h.dispatch hsize hn hnext hcarried hrest

theorem workB (h : Sound tr size n outs ports role known s) (hsize : 0 < size)
    (hn : n + 1 < size ∨ n = size) (hsock : ∀ connId, (sock connId).Reliable)
    {act : Pipeline.Action} (hstep : s.step sock role (.workB act) = some s') :
    Sound tr size n outs ports role known s' := by
  obtain ⟨sc, sc', huse⟩ := h.chains
  simp only [System.step] at hstep
  split_ifs at hstep with hpush
  obtain ⟨b, hb, habsorb⟩ := Option.bind_eq_some_iff.mp hstep
  have htunnel : s.tunnel.step (.workB act) = some ⟨s.a, b⟩ := by
    rw [Tunnel.step, if_neg hpush]
    exact Option.map_eq_some_iff.mpr ⟨b, hb, rfl⟩
  have huse' : ∃ sc sc', InUse tr size n outs ports sc sc' ⟨s.a, b⟩ :=
    huse.step hsize hn (by rintro src x ⟨⟩) htunnel
  obtain ⟨hpushed, hwire⟩ : b.pushed = s.b.pushed ∧
      (b.wire = s.b.wire ∨ ∃ w : Int × Bytes, b.wire = s.b.wire ++ [w] ∧
        (Pipeline.Dir.decode = .encode → w.2 ≠ [])) :=
    work_wire huse.singleB huse.decodes hn hpush hb
  rcases hwire with hwire | ⟨⟨dst, data⟩, hwire, -⟩
  · simp only [System.absorb, hwire, List.drop_length] at habsorb
    obtain rfl := Option.some.inj habsorb
    refine ⟨huse', h.filled, hpushed ▸ h.carried, h.sent, h.ids, h.last, ?_⟩
    have hreceived : (Tunnel.mk s.a b).received = s.tunnel.received := by
      simp only [Tunnel.received, System.tunnel, hwire]
    show Holding known s.conns ((Tunnel.mk s.a b).received.filterMap _)
    rw [hreceived]
    exact h.holding
  · simp only [System.absorb, hwire, List.drop_left] at habsorb
    obtain ⟨sc₂, sc₂', huse₂⟩ := huse'
    obtain rfl : dst = 0 := huse₂.portsB (dst, data) (by simp [hwire])
    have hreceived : (Tunnel.mk s.a b).received = s.tunnel.received ++ [data] := by
      simp [Tunnel.received, System.tunnel, hwire]
    have hbefore : Holding known { s with b := b }.conns
        (s.tunnel.received.filterMap (parsePacket role)) := h.holding
    obtain ⟨hholding, ha, hb', hlinks, hlog⟩ := hbefore.handle hsock habsorb
    have htunnel' : s'.tunnel = ⟨s.a, b⟩ := by rw [System.tunnel, ha, hb']
    refine ⟨⟨sc₂, sc₂', htunnel' ▸ huse₂⟩, ha ▸ h.filled, ?_, ?_, hlog ▸ h.ids, hlog ▸ h.last, ?_⟩
    · rw [ha, hb', hlinks]
      exact hpushed ▸ h.carried
    · rw [htunnel', hlog]
      exact h.sent
    · rw [htunnel', hreceived, List.filterMap_append]
      cases hparse : parsePacket role data with
      | none =>
          rw [List.filterMap_cons_none hparse]
          rw [hparse] at hholding
          exact hholding
      | some item =>
          rw [List.filterMap_cons_some hparse]
          rw [hparse] at hholding
          exact hholding

theorem flush (h : Sound tr size n outs ports role known s)
    (hsock : ∀ connId, (sock connId).Reliable) {connId : UInt8}
    (hstep : s.step sock role (.flush connId) = some s') :
    Sound tr size n outs ports role known s' := by
  simp only [System.step] at hstep
  cases hget : s.conns connId with
  | none =>
      rw [hget] at hstep
      cases hstep
  | some sink =>
      rw [hget] at hstep
      obtain ⟨r, hflush, rfl⟩ := Option.map_eq_some_iff.mp hstep
      refine ⟨h.chains, h.filled, h.carried, h.sent, h.ids, h.last, ?_⟩
      apply h.holding.update hget
      · exact fun hholds => hholds.flush (hsock connId) hflush
      · exact fun _ _ _ hholds => hholds

/-- What the connections hold is what the sending side pushed, as far as B has put it out. -/
theorem holds (h : Sound tr size n outs ports role known s) :
    ∃ front rest, s.log = front ++ rest ∧ Holding known s.conns front ∧
      (s.Quiet → front = s.log) := by
  obtain ⟨sc, sc', huse⟩ := h.chains
  have hprefix := huse.prefix_sent
  rw [h.sent, List.prefix_map_iff] at hprefix
  obtain ⟨front, ⟨rest, hlog⟩, hreceived⟩ := hprefix
  have hids : ∀ connId chunk, .data connId chunk ∈ front → connId ≠ 255 := fun connId chunk hmem =>
    h.ids connId chunk (hlog ▸ List.mem_append_left rest hmem)
  have hholding := h.holding
  rw [hreceived, filterMap_packets role hids] at hholding
  refine ⟨front, rest, hlog.symm, hholding, fun hquiet => ?_⟩
  have hall : s.tunnel.AllDelivered := by
    intro w hw
    have hcarried := h.carried w.1
    rw [Tunnel.nextOutput, Option.map_eq_none_iff, List.getElem?_eq_none_iff]
    have hlength := congrArg List.length hcarried.accepted
    rw [outputs, List.length_map] at hlength
    have hquietly := hquiet.2.2 w hw
    have hpushed := hcarried.pushed
    show (s.a.wire.filter _).length ≤ (s.b.pushed.filter _).length
    omega
  have hlength := congrArg List.length (huse.eq_sent hall hquiet.1 hquiet.2.1)
  rw [hreceived, h.sent, List.length_map, List.length_map, ← hlog, List.length_append] at hlength
  have hrest : rest = [] := List.eq_nil_of_length_eq_zero (by omega)
  rw [← hlog, hrest, List.append_nil]

end Sound

section Runs

variable {transformers : String → Option (String → Transformer)} {cfg : List Pipeline.ModuleSpec}
  {size outs ports : Nat} {known : UInt8 → Bool} {sock : UInt8 → Socket} {s s' : System}

theorem Sound.step
    (h : Sound (Pipeline.transformerAt transformers cfg) size (Pipeline.splitIdx cfg) outs ports role
      known s) (hsize : 0 < size)
    (hn : Pipeline.splitIdx cfg + 1 < size ∨ Pipeline.splitIdx cfg = size)
    (hsock : ∀ connId, (sock connId).Reliable) {l : Label}
    (hok : s.Admissible transformers cfg role l) (hstep : s.step sock role l = some s') :
    Sound (Pipeline.transformerAt transformers cfg) size (Pipeline.splitIdx cfg) outs ports role
      known s' := by
  cases l with
  | read connId chunk =>
      simp only [System.step] at hstep
      split_ifs at hstep with hread
      refine h.push hsize hn ?_ ⟨⟨hok.1, hok.2.1⟩, hok.2.2⟩ hstep
      rintro c chunk' ⟨rfl, rfl⟩
      exact ⟨hread.1, hread.2.2.2⟩
  | eof connId => exact h.push hsize hn (by rintro c chunk ⟨⟩) ⟨⟨hok.1, hok.2.1⟩, hok.2.2⟩ hstep
  | workA act => exact h.workA hsize hn hok hstep
  | keep => exact h.keep hstep
  | link port l => exact h.link hsize hn hok hstep
  | workB act => exact h.workB hsize hn hsock hstep
  | flush connId => exact h.flush hsock hstep

/-- Two chains of the same list in front of new data connections. -/
theorem Sound.start (role : Link.Role) (known : UInt8 → Bool)
    {ca cb : Pipeline.Chain ModuleContext} {tr : Nat → Transformer} {n : Nat} {params : String}
    (ha : Pipeline.Fitted tr size n (Split.SplitContext.init params).numOutputs ports
      (Split.SplitContext.init params) ca)
    (hb : Pipeline.Fitted tr size n (Split.SplitContext.init params).numOutputs ports
      (Split.SplitContext.init params) cb) (hn : n + 1 < size ∨ n = size ∧ ports = 2) :
    Sound tr size n (Split.SplitContext.init params).numOutputs ports role known
      (System.start ca cb known) := by
  refine ⟨⟨_, _, InUse.start ha hb hn⟩, nofun, ?_, rfl, ?_, .nil, ?_⟩
  · exact fun p => ⟨Link.Ordered.init, rfl, rfl⟩
  · exact fun _ _ hmem => absurd hmem List.not_mem_nil
  · change Holding known _ []
    intro connId hknown
    refine ⟨{}, by simp [System.start, hknown], ⟨Nat.zero_le _, rfl⟩, ?_⟩
    exact iff_of_false nofun List.not_mem_nil

end Runs

open Pipeline (taskSteps markers markedSplit tunnelChain)

/-- The steps of a worker of A for a task that leaves the chain. -/
def exitSteps : List Label :=
  ([.dequeue, .lockNogap 0, .lockDir 0, .unlockNogap 0 fun _ => 0, .write 0].map .workA) ++
    [.keep, .workA (.finish 0)]

end PipelineTunnel.Stack
