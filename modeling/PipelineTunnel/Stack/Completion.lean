import PipelineTunnel.Pipeline.Termination
import PipelineTunnel.Stack.Streams

/-!
# When the tunnel gets everything across

Whether what has been read can still be delivered depends on the data connections alone. If each of
them can recover, the client delivers everything without reading more: it brings the frames of one
connection after the other across, with a reconnect where one is needed, and the workers do the
rest. If one of them cannot, nothing that happens later makes up for it.

## Implementation notes

A step of a data connection is a step of the tunnel, so what a data connection can do on its own
(`Link.continues_ready`) it can do here. Behind every output of A its data connection is made ready
again, and what is left to do in the two chains becomes less (`Pipeline.Tunnel.load`).
-/

namespace PipelineTunnel.Stack

open StepSystem
open Pipeline (Pool ModuleContext Transformer Tunnel tunnelProcess InUse)
open Link (DataLink Role)
open Common (Channel Socket Exact)

variable {tr : Nat → Transformer} {size n outs ports : Nat} {role : Role} {known : UInt8 → Bool}
  {sock : UInt8 → Socket} {s s' : System}

/-! ## What a step changes -/

namespace Sound

theorem push_eq (h : Sound tr size n outs ports role known s) {item : Item}
    (hpush : s.push role item = some s') :
    ∃ a, a.wire = s.a.wire ∧ s' = { s with a := a, log := s.log ++ [item] } := by
  obtain ⟨sc, sc', huse⟩ := h.chains
  obtain ⟨a, ha, hemit⟩ := Option.bind_eq_some_iff.mp hpush
  have hentry : s.a.chain.entryExt = some 0 := huse.encodes.fitted.routes.entry
  obtain ⟨hwire, -⟩ := push_wire hentry ha
  simp only [System.emit, hwire, List.drop_length] at hemit
  exact ⟨a, hwire, (Option.some.inj hemit).symm⟩

/-- A worker of A calls `wire_write` at most once. -/
theorem work_eq (h : Sound tr size n outs ports role known s) (hn : n + 1 < size ∨ n = size)
    {act : Pipeline.Action} (hpush : ¬act.isPush) {a : Pool ModuleContext}
    (ha : s.a.step tunnelProcess act = some a) :
    (a.wire = s.a.wire ∧ s.emit role a = some { s with a := a }) ∨
      ∃ port data, a.wire = s.a.wire ++ [(port, data)] ∧
        s.emit role a = (Link.step role (s.links port) (.send data)).map fun link =>
          { s with
            a := a
            links := Function.update s.links port link
            calling := if link.sending.isSome then some port else none } := by
  obtain ⟨sc, sc', huse⟩ := h.chains
  obtain ⟨-, hwire⟩ : a.pushed = s.a.pushed ∧
      (a.wire = s.a.wire ∨ ∃ w : Int × Bytes, a.wire = s.a.wire ++ [w] ∧
        (Pipeline.Dir.encode = .encode → w.2 ≠ [])) :=
    work_wire huse.singleA huse.encodes hn hpush ha
  rcases hwire with hwire | ⟨⟨port, data⟩, hwire, -⟩
  · exact .inl ⟨hwire, by simp only [System.emit, hwire, List.drop_length]⟩
  · exact .inr ⟨port, data, hwire, by simp only [System.emit, hwire, List.drop_left]⟩

end Sound

/-- The steps of a data connection beside `wire_write`. -/
theorem link_eq {port : Int} {l : Link.Step} (hstep : s.step sock role (.link port l) = some s') :
    (∀ data, l ≠ .send data) ∧ l ≠ .keep ∧
      (Link.step role (s.links port) l).bind (s.advance port) = some s' := by
  cases l with
  | send => cases hstep
  | keep => cases hstep
  | flush | deliver | ack | timer | lose | reopen | clear | resend =>
      exact ⟨by rintro data ⟨⟩, by simp, hstep⟩

theorem advance_eq {port : Int} {link : DataLink} (hstep : s.advance port link = some s') :
    ∃ b, s' = { s with links := Function.update s.links port link, b := b } := by
  rw [System.advance] at hstep
  split at hstep
  · exact ⟨s.b, (Option.some.inj hstep).symm⟩
  · rw [System.dispatch] at hstep
    split_ifs at hstep
    · exact ⟨s.b, (Option.some.inj hstep).symm⟩
    · obtain ⟨b, -, rfl⟩ := Option.map_eq_some_iff.mp hstep
      exact ⟨b, rfl⟩

/-- `wire_write` with `dst = 0` changes the connections only. -/
theorem handle_eq {item : Option Item} (hstep : s.handle sock item = some s') :
    ∃ conns, s' = { s with conns := conns } := by
  match item with
  | none => exact ⟨s.conns, (Option.some.inj hstep).symm⟩
  | some (.data connId payload) =>
      simp only [System.handle] at hstep
      split at hstep
      · exact ⟨s.conns, (Option.some.inj hstep).symm⟩
      · obtain ⟨r, -, rfl⟩ := Option.map_eq_some_iff.mp hstep
        exact ⟨_, rfl⟩
  | some (.control connId) =>
      simp only [System.handle] at hstep
      split at hstep
      · exact ⟨s.conns, (Option.some.inj hstep).symm⟩
      · exact ⟨_, (Option.some.inj hstep).symm⟩

theorem absorb_eq {b : Pool ModuleContext} (hstep : s.absorb sock role b = some s') :
    ∃ conns, s' = { s with b := b, conns := conns } := by
  rw [System.absorb] at hstep
  split at hstep
  · exact ⟨s.conns, (Option.some.inj hstep).symm⟩
  · exact handle_eq hstep

/-- No `wire_write` and no second half of one leaves the connection as it was. -/
theorem sending_eq {link link' : DataLink} {l : Link.Step} (hsend : ∀ data, l ≠ .send data)
    (hkeep : l ≠ .keep) (hstep : Link.step role link l = some link') :
    link'.sending = link.sending := by
  cases Link.step_moves hstep with
  | send payload => exact absurd rfl (hsend payload)
  | keep => exact absurd rfl hkeep
  | deliver =>
      rw [DataLink.receiveData]
      split <;> rfl
  | reopen => cases role <;> rfl
  | flush | ack | timer | lose | clear | resent | resend => rfl

theorem sending_update {port : Int} {link : DataLink}
    (hsending : link.sending = (s.links port).sending) (p : Int) :
    (Function.update s.links port link p).sending = (s.links p).sending := by
  by_cases hp : p = port
  · subst hp
    rw [Function.update_self, hsending]
  · rw [Function.update_of_ne hp]

/-! ## What else is kept -/

def Label.isInput : Label → Bool
  | .read .. | .eof _ => true
  | .workA _ | .keep | .link .. | .workB _ | .flush _ => false

/-- What a step does. -/
inductive Moves (sock : UInt8 → Socket) (role : Role) (s : System) : Label → System → Prop
  | push {l : Label} (item : Item) (a : Pool ModuleContext) (hinput : l.isInput = true)
      (hwire : a.wire = s.a.wire)
      (hitem : ∀ connId chunk, item = .data connId chunk → chunk ≠ []) :
      Moves sock role s l { s with a := a, log := s.log ++ [item] }
  | work {act : Pipeline.Action} (a : Pool ModuleContext) (hwire : a.wire = s.a.wire) :
      Moves sock role s (.workA act) { s with a := a }
  | send {act : Pipeline.Action} (a : Pool ModuleContext) (port : Int) (data : Bytes)
      (link : DataLink) (hidle : s.calling = none) (hwire : a.wire = s.a.wire ++ [(port, data)])
      (hlink : Link.step role (s.links port) (.send data) = some link) :
      Moves sock role s (.workA act)
        { s with
          a := a
          links := Function.update s.links port link
          calling := if link.sending.isSome then some port else none }
  | keep (port : Int) (link : DataLink) (hcalling : s.calling = some port)
      (hlink : Link.step role (s.links port) .keep = some link) :
      Moves sock role s .keep
        { s with links := Function.update s.links port link, calling := none }
  | link {port : Int} {l : Link.Step} (link : DataLink) (b : Pool ModuleContext)
      (hsend : ∀ data, l ≠ .send data) (hkeep : l ≠ .keep)
      (hlink : Link.step role (s.links port) l = some link) :
      Moves sock role s (.link port l) { s with links := Function.update s.links port link, b := b }
  | absorb {act : Pipeline.Action} (b : Pool ModuleContext) (conns : UInt8 → Option Sink)
      (hpush : ¬act.isPush) (hb : s.b.step tunnelProcess act = some b)
      (habsorb : s.absorb sock role b = some { s with b := b, conns := conns }) :
      Moves sock role s (.workB act) { s with b := b, conns := conns }
  | flush {connId : UInt8} (sink : Sink) (r : Channel × Bool) (hget : s.conns connId = some sink)
      (hflush : Common.flush (sock connId) sink.writer = some r) :
      Moves sock role s (.flush connId)
        { s with conns := Function.update s.conns connId (some { sink with writer := r.1 }) }

theorem Sound.moves (h : Sound tr size n outs ports role known s) (hn : n + 1 < size ∨ n = size)
    {l : Label} (hstep : s.step sock role l = some s') : Moves sock role s l s' := by
  cases l with
  | read connId chunk =>
      simp only [System.step] at hstep
      split_ifs at hstep with hread
      obtain ⟨a, hwire, rfl⟩ := h.push_eq hstep
      refine .push _ a rfl hwire ?_
      rintro c chunk' ⟨rfl, rfl⟩
      exact List.length_pos_iff.mp hread.2.1
  | eof connId =>
      obtain ⟨a, hwire, rfl⟩ := h.push_eq hstep
      exact .push _ a rfl hwire (by rintro c chunk ⟨⟩)
  | workA act =>
      simp only [System.step] at hstep
      split_ifs at hstep with hidle
      obtain ⟨hpush, hnone⟩ := not_or.mp hidle
      obtain ⟨a, ha, hemit⟩ := Option.bind_eq_some_iff.mp hstep
      rcases h.work_eq hn hpush ha with ⟨hwire, heq⟩ | ⟨port, data, hwire, heq⟩
      · obtain rfl := Option.some.inj (heq.symm.trans hemit)
        exact .work a hwire
      · obtain ⟨link, hlink, rfl⟩ := Option.map_eq_some_iff.mp (heq.symm.trans hemit)
        exact .send a port data link (by simpa using hnone) hwire hlink
  | keep =>
      obtain ⟨port, hport, hkeep⟩ := Option.bind_eq_some_iff.mp hstep
      obtain ⟨link, hlink, rfl⟩ := Option.map_eq_some_iff.mp hkeep
      exact .keep port link hport hlink
  | link port l =>
      obtain ⟨hsend, hkeep, hgo⟩ := link_eq hstep
      obtain ⟨link, hlink, hadvance⟩ := Option.bind_eq_some_iff.mp hgo
      obtain ⟨b, rfl⟩ := advance_eq hadvance
      exact .link link b hsend hkeep hlink
  | workB act =>
      simp only [System.step] at hstep
      split_ifs at hstep with hpush
      obtain ⟨b, hb, habsorb⟩ := Option.bind_eq_some_iff.mp hstep
      obtain ⟨conns, rfl⟩ := absorb_eq habsorb
      exact .absorb b conns hpush hb habsorb
  | flush connId =>
      simp only [System.step] at hstep
      cases hget : s.conns connId with
      | none => simp [hget] at hstep
      | some sink =>
          rw [hget] at hstep
          obtain ⟨r, hflush, rfl⟩ := Option.map_eq_some_iff.mp hstep
          exact .flush sink r hget hflush

/-- A frame is between the halves of a `wire_write` exactly on the data connection that a worker of
A is writing to. -/
structure Called (s : System) : Prop where
  calling : ∀ p, (s.links p).sending.isSome = true ↔ s.calling = some p
  used : ∀ p, s.calling = some p → ∃ w ∈ s.a.wire, w.1 = p

namespace Called

theorem congr (h : Called s) (hlinks : ∀ p, (s'.links p).sending = (s.links p).sending)
    (hcalling : s'.calling = s.calling) (hwire : s'.a.wire = s.a.wire) : Called s' := by
  refine ⟨fun p => ?_, fun p hp => ?_⟩
  · rw [hlinks, hcalling]
    exact h.calling p
  · rw [hwire]
    exact h.used p (hcalling ▸ hp)

theorem step (h : Called s) (hsound : Sound tr size n outs ports role known s)
    (hn : n + 1 < size ∨ n = size) {l : Label} (hstep : s.step sock role l = some s') :
    Called s' := by
  cases hsound.moves hn hstep with
  | push item a hinput hwire => exact h.congr (fun _ => rfl) rfl hwire
  | work a hwire => exact h.congr (fun _ => rfl) rfl hwire
  | send a port data link hidle hwire =>
      refine ⟨fun p => ?_, fun p hp => ?_⟩
      · show (Function.update s.links port link p).sending.isSome = true ↔
          (if link.sending.isSome = true then some port else none) = some p
        by_cases hp : p = port
        · subst hp
          rw [Function.update_self]
          split_ifs with hsending
          · exact iff_of_true hsending rfl
          · exact iff_of_false hsending not_false
        · rw [Function.update_of_ne hp, h.calling p, hidle]
          simp [Ne.symm hp]
      · have hsome : (if link.sending.isSome = true then some port else none) = some p := hp
        split_ifs at hsome
        refine ⟨(port, data), ?_, Option.some.inj hsome⟩
        show (port, data) ∈ a.wire
        rw [hwire]
        exact List.mem_append_right _ List.mem_cons_self
  | keep port link hport hlink =>
      have hnone : link.sending = none := by
        cases Link.step_moves hlink with
        | keep => rfl
      refine ⟨fun p => ?_, fun p hp => absurd hp (Option.some_ne_none p).symm⟩
      show (Function.update s.links port link p).sending.isSome = true ↔ none = some p
      by_cases hp : p = port
      · subst hp
        rw [Function.update_self, hnone]
        simp
      · rw [Function.update_of_ne hp, h.calling p, hport]
        simp [Ne.symm hp]
  | link link b hsend hkeep hlink =>
      exact h.congr (sending_update (sending_eq hsend hkeep hlink)) rfl rfl
  | absorb b conns => exact h.congr (fun _ => rfl) rfl rfl
  | flush sink r => exact h.congr (fun _ => rfl) rfl rfl

end Called

/-- No data packet is empty, and no writer has an empty chunk. -/
structure Writable (s : System) : Prop where
  chunks : ∀ connId chunk, .data connId chunk ∈ s.log → chunk ≠ []
  writers : ∀ connId sink, s.conns connId = some sink → ∃ handed, Exact sink.writer handed []

namespace Writable

theorem congr (h : Writable s) (hlog : s'.log = s.log) (hconns : s'.conns = s.conns) :
    Writable s' :=
  ⟨hlog ▸ h.chunks, hconns ▸ h.writers⟩

theorem push (h : Writable s) {item : Item} (hitem : ∀ connId chunk, item = .data connId chunk →
    chunk ≠ []) {a : Pool ModuleContext} : Writable { s with a := a, log := s.log ++ [item] } := by
  refine ⟨fun connId chunk hmem => ?_, h.writers⟩
  rcases List.mem_append.mp hmem with hmem | hmem
  · exact h.chunks connId chunk hmem
  · exact hitem connId chunk (List.mem_singleton.mp hmem).symm

/-- The new sink of a connection has a writer like the others. -/
theorem update (h : Writable s) {connId : UInt8} {sink : Sink} {handed : Bytes}
    (hsink : Exact sink.writer handed []) :
    Writable { s with conns := Function.update s.conns connId (some sink) } := by
  refine ⟨h.chunks, fun c held hget => ?_⟩
  have hheld : Function.update s.conns connId (some sink) c = some held := hget
  by_cases heq : c = connId
  · subst heq
    rw [Function.update_self] at hheld
    exact ⟨handed, Option.some.inj hheld ▸ hsink⟩
  · rw [Function.update_of_ne heq] at hheld
    exact h.writers c held hheld

variable (sock) in
/-- `wire_write` returns for every item that was pushed. -/
theorem handle (h : Writable s) {item : Item} (hmem : item ∈ s.log) :
    ∃ s', s.handle sock (some item) = some s' ∧ Writable s' := by
  cases item with
  | data connId payload =>
      simp only [System.handle]
      cases hget : s.conns connId with
      | none => exact ⟨s, rfl, h⟩
      | some sink =>
          obtain ⟨handed, hexact⟩ := h.writers connId sink hget
          obtain ⟨w, r, hwrite, hresult⟩ :=
            Common.write_spec (sock connId) hexact (h.chunks connId payload hmem)
          refine ⟨_, by simp only [hwrite, Option.map_some]; rfl, ?_⟩
          rcases hresult with ⟨-, hw⟩ | ⟨-, hw⟩
          · exact h.update hw
          · exact h.update hw
  | control connId =>
      simp only [System.handle]
      cases hget : s.conns connId with
      | none => exact ⟨s, rfl, h⟩
      | some sink =>
          obtain ⟨handed, hexact⟩ := h.writers connId sink hget
          exact ⟨_, rfl, h.update hexact⟩

end Writable

/-- The packets that B hands over are read as items that were pushed into A. -/
theorem parse_received (h : Sound tr size n outs ports role known s) {b : Pool ModuleContext}
    (huse : ∃ sc sc', InUse tr size n outs ports sc sc' ⟨s.a, b⟩) {dst : Int} {data : Bytes}
    (hwire : b.wire = s.b.wire ++ [(dst, data)]) :
    ∃ item ∈ s.log, parsePacket role data = some item := by
  obtain ⟨sc, sc', huse⟩ := huse
  obtain rfl : dst = 0 := huse.portsB (dst, data) (by simp [hwire])
  have hreceived : data ∈ (Tunnel.mk s.a b).received := by
    simp [Tunnel.received, hwire]
  have hsent : data ∈ s.log.map (Item.packet role) := by
    rw [← h.sent]
    exact huse.prefix_sent.subset hreceived
  obtain ⟨item, hmem, rfl⟩ := List.mem_map.mp hsent
  refine ⟨item, hmem, parsePacket_packet role ?_⟩
  rintro connId chunk rfl
  exact h.ids connId chunk hmem

variable (sock) in
/-- A worker of B gets through its call of `wire_write`. -/
theorem Writable.absorb (h : Writable s) (hsound : Sound tr size n outs ports role known s)
    (hsize : 0 < size) (hn : n + 1 < size ∨ n = size) {act : Pipeline.Action} (hpush : ¬act.isPush)
    {b : Pool ModuleContext} (hb : s.b.step tunnelProcess act = some b) :
    ∃ s', s.absorb sock role b = some s' ∧ Writable s' := by
  obtain ⟨sc, sc', huse⟩ := hsound.chains
  have htunnel : s.tunnel.step (.workB act) = some ⟨s.a, b⟩ := by
    rw [Tunnel.step, if_neg hpush]
    exact Option.map_eq_some_iff.mpr ⟨b, hb, rfl⟩
  obtain ⟨-, hwire⟩ : b.pushed = s.b.pushed ∧
      (b.wire = s.b.wire ∨ ∃ w : Int × Bytes, b.wire = s.b.wire ++ [w] ∧
        (Pipeline.Dir.decode = .encode → w.2 ≠ [])) :=
    Stack.work_wire huse.singleB huse.decodes hn hpush hb
  rcases hwire with hwire | ⟨⟨dst, data⟩, hwire, -⟩
  · exact ⟨{ s with b := b }, by simp only [System.absorb, hwire, List.drop_length],
      h.congr rfl rfl⟩
  · obtain ⟨item, hmem, hparse⟩ :=
      parse_received hsound (huse.step hsize hn (by rintro src x ⟨⟩) htunnel) hwire
    have hb' : Writable { s with b := b } := h.congr rfl rfl
    obtain ⟨s', hs', hwritable⟩ := hb'.handle sock hmem
    exact ⟨s', by simp only [System.absorb, hwire, List.drop_left, hparse, hs'], hwritable⟩

theorem Writable.step (h : Writable s) (hsound : Sound tr size n outs ports role known s)
    (hsize : 0 < size) (hn : n + 1 < size ∨ n = size) {l : Label}
    (hstep : s.step sock role l = some s') : Writable s' := by
  cases hsound.moves hn hstep with
  | push item a hinput hwire hitem => exact h.push hitem
  | work a | send a port data link | keep port link | link link b => exact h.congr rfl rfl
  | absorb b conns hpush hb habsorb =>
      obtain ⟨t, ht, hwritable⟩ := h.absorb sock hsound hsize hn hpush hb
      exact Option.some.inj (ht.symm.trans habsorb) ▸ hwritable
  | @flush connId sink r hget hflush =>
      obtain ⟨handed, hexact⟩ := h.writers connId sink hget
      obtain ⟨w, ok, hdone, hw, -⟩ := Common.flushUnlocked_spec (sock connId) hexact
      obtain rfl := Option.some.inj (hdone.symm.trans hflush)
      exact h.update hw

/-! ## Going on without input -/

/-- A run that reads nothing leads from `s` to `s'`. -/
def Goes (role : Role) (sock : UInt8 → Socket)
    (transformers : String → Option (String → Transformer)) (cfg : List Pipeline.ModuleSpec)
    (s s' : System) : Prop :=
  Leads (System.step sock role) (System.Admissible transformers cfg role)
    (fun l => l.isInput = false) s s'

/-- The invariants of a tunnel in use. -/
structure Live (tr : Nat → Transformer) (size n outs ports : Nat) (role : Role)
    (known : UInt8 → Bool) (s : System) : Prop where
  sound : Sound tr size n outs ports role known s
  called : Called s
  writable : Writable s

/-- A data connection has not fallen a round behind, and can recover. -/
structure Sure (link : DataLink) : Prop where
  round : link.accepted.length < link.dispatched.length + 65536
  recoverable : link.Recoverable

theorem Sure.of_ready {link : DataLink} (h : Link.Ready link) : Sure link :=
  ⟨by rw [h.arrived]; omega, h.recoverable⟩

/-- The data connections that A may write to. -/
def portsOf (ports : Nat) : List Int := (List.range ports).map fun q : Nat => (q : Int)

theorem mem_portsOf {ports : Nat} {t : Tunnel} {sc sc' : Split.SplitContext}
    (h : InUse tr size n outs ports sc sc' t) {w : Int × Bytes} (hw : w ∈ t.a.wire) :
    w.1 ∈ portsOf ports := by
  obtain ⟨q, hq, -, hlt⟩ := h.portsA w hw
  rw [hq]
  exact List.mem_map_of_mem (List.mem_range.mpr hlt)

namespace Live

/-- Nothing was written to a data connection that A never wrote to. -/
theorem sure_of_unused (h : Live tr size n outs ports role known s) {p : Int}
    (hnone : ∀ w ∈ s.a.wire, w.1 ≠ p) : Sure (s.links p) := by
  have haccepted : (s.links p).accepted = [] := by
    rw [(h.sound.carried p).accepted, outputs, List.filter_eq_nil_iff.mpr, List.map_nil]
    intro w hw
    simpa using hnone w hw
  refine ⟨by rw [haccepted, List.length_nil]; omega, Link.recoverable_of_kept ?_⟩
  rw [DataLink.firstKept, haccepted]
  exact Nat.le_trans (Nat.sub_le _ _) (Nat.zero_le _)

variable (sock) in
/-- A step of a data connection goes through, whether or not it dispatches a frame. -/
theorem link_enabled (h : Live tr size n outs ports role known s) {port : Int} {l : Link.Step}
    (hsend : ∀ data, l ≠ .send data) (hkeep : l ≠ .keep)
    (hround : Link.WithinRound (s.links port) l) {link : DataLink}
    (hlink : Link.step role (s.links port) l = some link) :
    ∃ b, s.step sock role (.link port l) =
      some { s with links := Function.update s.links port link, b := b } := by
  have hgo : s.step sock role (.link port l) = s.advance port link := by
    cases l with
    | send data => exact absurd rfl (hsend data)
    | keep => exact absurd rfl hkeep
    | flush | deliver | ack | timer | lose | reopen | clear | resend =>
        simp only [System.step, hlink, Option.bind_some]
  obtain ⟨sc, sc', huse⟩ := h.sound.chains
  rw [hgo, System.advance]
  rcases (h.sound.carried port).move hround hsend hlink with ⟨hsame, -⟩ | ⟨f, hnew, hnext, -⟩
  · rw [hsame, List.drop_length]
    exact ⟨s.b, rfl⟩
  · obtain ⟨hfilled, houtput⟩ := h.sound.next_output hnext
    obtain ⟨-, x, i, hentry, -⟩ := huse.entry houtput
    have hpush : s.b.push ⟨port, .decode, f.payload⟩ = some { s.b with
        pushed := s.b.pushed ++ [⟨port, .decode, f.payload⟩]
        queue := s.b.queue ++ [⟨x, .decode, port, f.payload⟩] } := by
      have hentry : Pipeline.pushPacket s.b.chain false true port .decode = .enqueued x := hentry
      simp only [Pool.push, hentry]
    rw [hnew, List.drop_left]
    simp only [System.dispatch, if_neg hfilled, hpush, Option.map_some]
    exact ⟨_, rfl⟩

section Runs

variable {transformers : String → Option (String → Transformer)} {cfg : List Pipeline.ModuleSpec}

theorem step {s s' : System}
    (h : Live (Pipeline.transformerAt transformers cfg) size (Pipeline.splitIdx cfg) outs ports role
      known s) (hsize : 0 < size)
    (hn : Pipeline.splitIdx cfg + 1 < size ∨ Pipeline.splitIdx cfg = size)
    (hsock : ∀ connId, (sock connId).Reliable) {l : Label}
    (hok : s.Admissible transformers cfg role l) (hstep : s.step sock role l = some s') :
    Live (Pipeline.transformerAt transformers cfg) size (Pipeline.splitIdx cfg) outs ports role
      known s' :=
  ⟨h.sound.step hsize hn hsock hok hstep, h.called.step h.sound hn hstep,
    h.writable.step h.sound hsize hn hstep⟩

variable (hsize : 0 < size) (hn : Pipeline.splitIdx cfg + 1 < size ∨ Pipeline.splitIdx cfg = size)
  (hsock : ∀ connId, (sock connId).Reliable)

include hsize hn hsock

/-- What a data connection does on its own, it does as a part of the tunnel. -/
theorem link_run {port : Int} {ls : List Link.Step} {link : DataLink}
    (h : Live (Pipeline.transformerAt transformers cfg) size (Pipeline.splitIdx cfg) outs ports role
      known s) (hround : (s.links port).accepted.length < (s.links port).dispatched.length + 65536)
    (hsend : ∀ payload, .send payload ∉ ls)
    (hrun : run (Link.step role) (s.links port) ls = some link) :
    ∃ s', Goes role sock transformers cfg s s' ∧
      Live (Pipeline.transformerAt transformers cfg) size (Pipeline.splitIdx cfg) outs ports role
        known s' ∧
      s'.links = Function.update s.links port link ∧ s'.a = s.a ∧ s'.log = s.log := by
  induction ls generalizing s with
  | nil =>
      obtain rfl := Option.some.inj hrun
      exact ⟨s, .refl s, h, (Function.update_eq_self port s.links).symm, rfl, rfl⟩
  | cons l ls ih =>
      obtain ⟨mid, hmid, hrest⟩ := run_cons_some hrun
      have hl : ∀ payload, l ≠ .send payload := by
        rintro payload rfl
        exact hsend payload List.mem_cons_self
      -- one step of the tunnel
      obtain ⟨m, t, hinput, hok, hstep, hlinks, ha, hlog⟩ : ∃ m t, Label.isInput m = false ∧
          s.Admissible transformers cfg role m ∧ s.step sock role m = some t ∧
          t.links = Function.update s.links port mid ∧ t.a = s.a ∧ t.log = s.log := by
        by_cases hkeep : l = .keep
        · subst hkeep
          have hsome : (s.links port).sending.isSome = true := by
            cases Link.step_moves hmid with
            | keep hsome => rw [hsome]; rfl
          have hcalling := (h.called.calling port).mp hsome
          refine ⟨.keep, { s with links := Function.update s.links port mid, calling := none }, rfl,
            trivial, ?_, rfl, rfl, rfl⟩
          simp only [System.step, hcalling, Option.bind_some, hmid, Option.map_some]
        · obtain ⟨b, hstep⟩ := h.link_enabled sock hl hkeep hround hmid
          exact ⟨.link port l, { s with links := Function.update s.links port mid, b := b }, rfl,
            hround, hstep, rfl, rfl, rfl⟩
      have hport : t.links port = mid := by rw [hlinks, Function.update_self]
      have hround' : (t.links port).accepted.length < (t.links port).dispatched.length + 65536 := by
        obtain ⟨haccepted, hnew⟩ := Link.moves_dispatched (Link.step_moves hmid) hl
        rw [hport, haccepted]
        rcases hnew with heq | ⟨-, f, heq⟩
        · rw [heq]
          exact hround
        · rw [heq, List.length_append]
          omega
      have hgo : Goes role sock transformers cfg s t := Leads.single hinput hok hstep
      obtain ⟨s', hgoes, hlive, hlinks', ha', hlog'⟩ := ih (h.step hsize hn hsock hok hstep) hround'
        (fun payload hmem => hsend payload (List.mem_cons_of_mem l hmem)) (hport ▸ hrest)
      refine ⟨s', hgo.trans hgoes, hlive, ?_, ha'.trans ha, hlog'.trans hlog⟩
      rw [hlinks', hlinks, Function.update_idem]

end Runs

end Live

/-! ## The client gets everything across -/

section Completion

variable {transformers : String → Option (String → Transformer)} {cfg : List Pipeline.ModuleSpec}
  (hsize : 0 < size) (hn : Pipeline.splitIdx cfg + 1 < size ∨ Pipeline.splitIdx cfg = size)
  (hsock : ∀ connId, (sock connId).Reliable)

include hsize hn hsock

/-- One data connection after the other gets ready. -/
theorem Live.ready
    (h : Live (Pipeline.transformerAt transformers cfg) size (Pipeline.splitIdx cfg) outs ports
      .client known s) (hsure : ∀ p, Sure (s.links p)) (ps : List Int) :
    ∃ s', Goes .client sock transformers cfg s s' ∧
      Live (Pipeline.transformerAt transformers cfg) size (Pipeline.splitIdx cfg) outs ports .client
        known s' ∧
      (∀ p ∈ ps, Link.Ready (s'.links p)) ∧ (∀ p, p ∉ ps → s'.links p = s.links p) ∧
      s'.a = s.a ∧ s'.log = s.log := by
  induction ps generalizing s with
  | nil => exact ⟨s, .refl s, h, nofun, fun _ _ => rfl, rfl, rfl⟩
  | cons p ps ih =>
      obtain ⟨link, ⟨ls, hsend, hrun⟩, hready⟩ := Link.continues_ready (h.sound.carried p).ordered
        (hsure p).round (hsure p).recoverable
      obtain ⟨t, hgo, ht, hlinks, ha, hlog⟩ :=
        h.link_run hsize hn hsock (hsure p).round hsend hrun
      have hother : ∀ q, q ≠ p → t.links q = s.links q := fun q hq => by
        rw [hlinks, Function.update_of_ne hq]
      have hp : Link.Ready (t.links p) := by
        rw [hlinks, Function.update_self]
        exact hready
      have hsure' : ∀ q, Sure (t.links q) := by
        intro q
        by_cases hq : q = p
        · exact hq ▸ .of_ready hp
        · exact hother q hq ▸ hsure q
      obtain ⟨s', hgoes, hlive, hall, hrest, ha', hlog'⟩ := ih ht hsure'
      refine ⟨s', hgo.trans hgoes, hlive, ?_, ?_, ha'.trans ha, hlog'.trans hlog⟩
      · intro q hq
        by_cases hmem : q ∈ ps
        · exact hall q hmem
        · rw [hrest q hmem]
          obtain rfl := (List.mem_cons.mp hq).resolve_right hmem
          exact hp
      · intro q hq
        rw [List.mem_cons, not_or] at hq
        rw [hrest q hq.2, hother q hq.1]

omit hsize hn hsock

/-- Every data connection that A may write to is ready. -/
structure Settled (transformers : String → Option (String → Transformer))
    (cfg : List Pipeline.ModuleSpec) (size outs ports : Nat) (known : UInt8 → Bool)
    (s : System) : Prop where
  live : Live (Pipeline.transformerAt transformers cfg) size (Pipeline.splitIdx cfg) outs ports
    .client known s
  ready : ∀ p ∈ portsOf ports, Link.Ready (s.links p)

namespace Settled

theorem calling_eq (h : Settled transformers cfg size outs ports known s) : s.calling = none := by
  obtain ⟨sc, sc', huse⟩ := h.live.sound.chains
  cases hcalling : s.calling with
  | none => rfl
  | some p =>
      obtain ⟨w, hw, rfl⟩ := h.live.called.used p hcalling
      have hsome := (h.live.called.calling w.1).mpr hcalling
      rw [(h.ready w.1 (mem_portsOf huse hw)).sending] at hsome
      cases hsome

/-- When both chains are drained as well, nothing is on its way. -/
theorem quiet (h : Settled transformers cfg size outs ports known s) (ha : s.a.Drained)
    (hb : s.b.Drained) : s.Quiet := by
  obtain ⟨sc, sc', huse⟩ := h.live.sound.chains
  exact ⟨ha, hb, fun w hw => (h.ready w.1 (mem_portsOf huse hw)).arrived⟩

include hsize hn hsock

/-- What A puts on the wire arrives before A goes on. -/
theorem workA (h : Settled transformers cfg size outs ports known s) {act : Pipeline.Action}
    (hpush : ¬act.isPush) {a : Pool ModuleContext} (ha : s.a.step tunnelProcess act = some a) :
    ∃ s', Goes .client sock transformers cfg s s' ∧
      Settled transformers cfg size outs ports known s' ∧ s'.a = a ∧ s'.log = s.log := by
  obtain ⟨sc, sc', huse⟩ := h.live.sound.chains
  have hstep : s.step sock .client (.workA act) = s.emit .client a := by
    simp only [System.step, h.calling_eq, Option.isSome_none, hpush, or_self, Bool.false_eq_true,
      if_false, ha, Option.bind_some]
  rcases h.live.sound.work_eq hn hpush ha with ⟨hwire, heq⟩ | ⟨port, data, hwire, heq⟩
  · have hok : s.Admissible transformers cfg .client (.workA act) := by
      intro a' ha' w hw
      obtain rfl := Option.some.inj (ha.symm.trans ha')
      rw [hwire, List.drop_length] at hw
      cases hw
    rw [heq] at hstep
    exact ⟨_, .single rfl hok hstep, ⟨h.live.step hsize hn hsock hok hstep, h.ready⟩, rfl, rfl⟩
  · have huse' : ∃ sc sc', InUse (Pipeline.transformerAt transformers cfg) size
        (Pipeline.splitIdx cfg) outs ports sc sc' ⟨a, s.b⟩ := by
      refine huse.step (l := .workA act) hsize hn (by rintro src x ⟨⟩) ?_
      rw [Tunnel.step, if_neg hpush]
      exact Option.map_eq_some_iff.mpr ⟨a, ha, rfl⟩
    obtain ⟨sc₂, sc₂', huse'⟩ := huse'
    have hrange : ∀ w ∈ a.wire, w.1 ∈ portsOf ports := fun w hw => mem_portsOf huse' hw
    have hready := h.ready port (hrange (port, data) (by simp [hwire]))
    obtain ⟨link, hlink⟩ : ∃ link, Link.step .client (s.links port) (.send data) = some link := by
      simp only [Link.step, hready.sending, Option.isSome_none, Bool.false_eq_true, if_false]
      exact ⟨_, rfl⟩
    have hok : s.Admissible transformers cfg .client (.workA act) := by
      intro a' ha' w hw
      obtain rfl := Option.some.inj (ha.symm.trans ha')
      rw [hwire, List.drop_left, List.mem_singleton] at hw
      rw [hw]
      exact hready.isOpen
    rw [heq, hlink, Option.map_some] at hstep
    have hlive := h.live.step hsize hn hsock hok hstep
    have hsure : ∀ p, Sure (Function.update s.links port link p) := by
      intro p
      by_cases hp : p = port
      · subst hp
        rw [Function.update_self]
        obtain ⟨hrecoverable, hlength⟩ := hready.send hlink
        exact ⟨by omega, hrecoverable⟩
      · by_cases hmem : p ∈ portsOf ports
        · rw [Function.update_of_ne hp]
          exact .of_ready (h.ready p hmem)
        · exact hlive.sure_of_unused fun w hw heq => hmem (heq ▸ hrange w hw)
    obtain ⟨s', hgoes, hlive', hready', -, ha', hlog'⟩ :=
      hlive.ready hsize hn hsock hsure (portsOf ports)
    have hgo : Goes .client sock transformers cfg s _ := Leads.single rfl hok hstep
    exact ⟨s', hgo.trans hgoes, ⟨hlive', hready'⟩, ha', hlog'⟩

theorem workB (h : Settled transformers cfg size outs ports known s) {act : Pipeline.Action}
    (hpush : ¬act.isPush) {b : Pool ModuleContext} (hb : s.b.step tunnelProcess act = some b) :
    ∃ s', Goes .client sock transformers cfg s s' ∧
      Settled transformers cfg size outs ports known s' ∧ s'.a = s.a ∧ s'.b = b ∧
      s'.log = s.log := by
  obtain ⟨t, ht, -⟩ := h.live.writable.absorb sock h.live.sound hsize hn hpush hb
  have hstep : s.step sock .client (.workB act) = some t := by
    simp only [System.step, hpush, Bool.false_eq_true, if_false, hb, Option.bind_some, ht]
  have hok : s.Admissible transformers cfg .client (.workB act) := trivial
  have hlive := h.live.step hsize hn hsock hok hstep
  obtain ⟨conns, rfl⟩ := absorb_eq ht
  exact ⟨_, .single rfl hok hstep, ⟨hlive, h.ready⟩, rfl, rfl, rfl⟩

/-- Something is left to do, and less of it behind the next step, or nothing is on its way. -/
theorem progress (h : Settled transformers cfg size outs ports known s) :
    s.Quiet ∨ ∃ s', Goes .client sock transformers cfg s s' ∧
      (Settled transformers cfg size outs ports known s' ∧ s'.log = s.log) ∧
      Tunnel.Less (s'.tunnel.load size) (s.tunnel.load size) := by
  obtain ⟨sc, sc', huse⟩ := h.live.sound.chains
  rcases huse.encodes.progress huse.singleA nofun with hdrained | ⟨act, a, hpush, ha⟩
  · have hmerge : Pipeline.Dir.decode = .decode → s.tunnel.b.chain.cfg (Pipeline.splitIdx cfg) =
        some (Pipeline.splitIdx cfg) → ∀ w ∈ s.tunnel.b.net.inbox (Pipeline.splitIdx cfg, .decode),
        (Split.processMerge sc' w.2).isSome := fun _ => huse.merge_isSome
    rcases huse.decodes.progress huse.singleB hmerge with hdrained' | ⟨act, b, hpush, hb⟩
    · exact .inl (h.quiet hdrained hdrained')
    · obtain ⟨s', hgo, hs', ha', hb', hlog⟩ := h.workB hsize hn hsock hpush hb
      refine .inr ⟨s', hgo, ⟨hs', hlog⟩, ?_⟩
      have hafter : s'.tunnel = ⟨s.a, b⟩ := by rw [System.tunnel, ha', hb']
      have htunnel : s.tunnel.step (.workB act) = some s'.tunnel := by
        rw [Tunnel.step, if_neg hpush, hafter]
        exact Option.map_eq_some_iff.mpr ⟨b, hb, rfl⟩
      exact huse.less hsize hn (by rintro src x ⟨⟩) htunnel
  · obtain ⟨s', hgo, hs', ha', hlog⟩ := h.workA hsize hn hsock hpush ha
    have hcut : Relation.CutExpand (· < ·) (a.load (a.chain.ahead size))
        (s.a.load (s.a.chain.ahead size)) := huse.encodes.load_step hn hpush ha
    rw [← ha'] at hcut
    exact .inr ⟨s', hgo, ⟨hs', hlog⟩, .left _ _ hcut⟩

end Settled

end Completion

/-- A tunnel at rest has handed everything over. -/
theorem Sound.delivered (h : Sound tr size n outs ports role known s) (hquiet : s.Quiet)
    {connId : UInt8} (hknown : known connId = true) :
    ∃ sink, s.conns connId = some sink ∧
      sink.writer.takenOf .normal ++ sink.writer.buf.normal = s.sentBy connId := by
  obtain ⟨front, rest, -, hholding, hfront⟩ := h.holds
  obtain ⟨sink, hget, hkept, -⟩ := hholding connId hknown
  exact ⟨sink, hget, by rw [hkept.normal, hfront hquiet, System.sentBy]⟩

/-! ## What is lost stays lost -/

section Losses

variable {transformers : String → Option (String → Transformer)} {cfg : List Pipeline.ModuleSpec}

/-- A step of one data connection, within the round if it dispatches something. -/
def Turns (role : Role) (link link' : DataLink) : Prop :=
  ∃ l, Link.step role link l = some link' ∧
    (link'.dispatched ≠ link.dispatched → link.accepted.length < link.dispatched.length + 65536)

theorem turns_update {port : Int} {link : DataLink} (h : Turns role (s.links port) link) (p : Int) :
    Function.update s.links port link p = s.links p ∨
      Turns role (s.links p) (Function.update s.links port link p) := by
  by_cases hp : p = port
  · subst hp
    rw [Function.update_self]
    exact .inr h
  · exact .inl (Function.update_of_ne hp _ _)

theorem links_step (h : Sound tr size n outs ports role known s) (hn : n + 1 < size ∨ n = size)
    {l : Label} (hok : s.Admissible transformers cfg role l)
    (hstep : s.step sock role l = some s') (p : Int) :
    s'.links p = s.links p ∨ Turns role (s.links p) (s'.links p) := by
  cases h.moves hn hstep with
  | push item a | work a | absorb b conns | flush sink r => exact .inl rfl
  | send a port data link hidle hwire hlink =>
      refine turns_update ⟨_, hlink, fun hne => absurd ?_ hne⟩ p
      cases Link.step_moves hlink with
      | send =>
          rw [DataLink.wireWrite]
          split <;> rfl
  | keep port link hcalling hlink =>
      refine turns_update ⟨_, hlink, fun hne => absurd ?_ hne⟩ p
      cases Link.step_moves hlink with
      | keep => rfl
  | @link port l link b hsend hkeep hlink => exact turns_update ⟨l, hlink, fun _ => hok⟩ p

/-- A data connection waits for frames up to `top` that nothing supplies. -/
structure Blocked (link : DataLink) (top : Nat) : Prop where
  kept : top ≤ link.firstKept
  missing : ¬link.Supplied top

theorem Blocked.turn {link link' : DataLink} {top : Nat} (h : Blocked link top)
    (hordered : Link.Ordered link) (hturn : Turns role link link') : Blocked link' top := by
  obtain ⟨l, hstep, hround⟩ := hturn
  refine ⟨h.kept.trans (Link.supply hordered hstep).1, fun hsup => h.missing ?_⟩
  exact Link.supplied_of_step hordered hround h.kept hstep hsup

/-- It never catches up. -/
theorem Blocked.behind {link : DataLink} {top : Nat} (h : Blocked link top) :
    link.dispatched.length < link.accepted.length := by
  have hlt : link.dispatched.length < top := by
    by_contra hge
    apply h.missing
    rw [DataLink.Supplied, Nat.sub_eq_zero_of_le (Nat.not_lt.mp hge)]
    exact List.nil_sublist _
  exact hlt.trans_le (h.kept.trans (Nat.sub_le _ _))

/-- A tunnel with a blocked data connection is never at rest. -/
theorem Sound.not_quiet (h : Sound tr size n outs ports role known s) {p : Int} {top : Nat}
    (hblocked : Blocked (s.links p) top) : ¬s.Quiet := by
  intro hquiet
  have hbehind := hblocked.behind
  obtain ⟨w, hw, rfl⟩ : ∃ w ∈ s.a.wire, w.1 = p := by
    by_contra hnone
    simp only [not_exists, not_and] at hnone
    rw [(h.carried p).accepted, outputs, List.filter_eq_nil_iff.mpr] at hbehind
    · cases hbehind
    · intro w hw
      simpa using hnone w hw
  rw [hquiet.2.2 w hw] at hbehind
  exact Nat.lt_irrefl _ hbehind

end Losses

/-! ## Every run -/

section Completing

variable {transformers : String → Option (String → Transformer)} {cfg : List Pipeline.ModuleSpec}

theorem Live.start (role : Role) (known : UInt8 → Bool) {ca cb : Pipeline.Chain ModuleContext}
    (hsound : Sound tr size n outs ports role known (System.start ca cb known)) :
    Live tr size n outs ports role known (System.start ca cb known) := by
  refine ⟨hsound, ⟨fun p => iff_of_false nofun nofun, nofun⟩, nofun, fun connId sink hget => ?_⟩
  simp only [System.start] at hget
  split_ifs at hget
  obtain rfl := Option.some.inj hget
  exact ⟨[], .nil, .nil, rfl, rfl, rfl⟩

/-- Nothing that happens behind a loss brings the tunnel to rest. -/
theorem Live.blocked
    (h : Live (Pipeline.transformerAt transformers cfg) size (Pipeline.splitIdx cfg) outs ports role
      known s) (hsize : 0 < size)
    (hn : Pipeline.splitIdx cfg + 1 < size ∨ Pipeline.splitIdx cfg = size)
    (hsock : ∀ connId, (sock connId).Reliable) {p : Int} {top : Nat}
    (hblocked : Blocked (s.links p) top) {ms : List Label}
    (hok : Meets (System.step sock role) (System.Admissible transformers cfg role) s ms)
    (hrun : run (System.step sock role) s ms = some s') : ¬s'.Quiet := by
  have hinv : Sound (Pipeline.transformerAt transformers cfg) size (Pipeline.splitIdx cfg) outs
      ports role known s' ∧ Blocked (s'.links p) top :=
    invariant_of_meets
      (I := fun u => Sound (Pipeline.transformerAt transformers cfg) size (Pipeline.splitIdx cfg)
        outs ports role known u ∧ Blocked (u.links p) top)
      (fun u l u' hu hl hstep => by
        refine ⟨hu.1.step hsize hn hsock hl hstep, ?_⟩
        rcases links_step hu.1 hn hl hstep p with heq | hturn
        · exact heq ▸ hu.2
        · exact hu.2.turn (hu.1.carried p).ordered hturn) ⟨h.sound, hblocked⟩ hok hrun
  exact hinv.1.not_quiet hinv.2

end Completing

open Pipeline (taskSteps markers markedSplit tunnelChain)

/-- A packet leaves in two chunks, and the first one is lost with its data connection. -/
def lostRun : List Label :=
  [.read 5 (List.replicate 99 1)] ++ (taskSteps 1 ++ taskSteps 2).map .workA ++
    exitSteps ++ exitSteps ++ [.link 1 .flush, .link 1 .lose]

/-- The next packet overtakes the lost chunk, its ACK takes both out of the window, and the data
connection is lost again. -/
def forgottenRun : List Label :=
  lostRun ++ [.link 1 .reopen, .eof 5] ++ (taskSteps 1 ++ taskSteps 1).map .workA ++ exitSteps ++
    [.link 1 .flush, .link 1 .deliver, .link 1 .clear, .link 1 .resend, .link 1 .resend,
      .link 1 .resend, .link 1 .ack, .link 1 .lose]

end PipelineTunnel.Stack
