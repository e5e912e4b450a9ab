import PipelineTunnel.Control.Channel

/-!
# No control message is lost in a careful run

The invariant lists, for one direction, the messages that have arrived at the receiver and
those under way in the sender's connections: together they are all numbered messages, and
no message is in two places. A careful step moves a message from one list to the other or
leaves both as they are.
-/

namespace PipelineTunnel.Control

open Link (Role)
open StepSystem

variable {e e' : Endpoint} {p p' : Pair} {c : Receiver (List Packet)}

/-- The frames in the writers and sockets of an end. -/
def Endpoint.underWay (e : Endpoint) : List Message :=
  e.conns.flatMap fun c => c.writer ++ c.flight

/-- Nothing waits in a closed connection. -/
def Endpoint.ClosedIdle (e : Endpoint) : Prop :=
  ∀ c ∈ e.conns, c.isOpen = false → c.writer = [] ∧ c.flight = []

/-- The messages of a sender and the receiver of its peer. -/
structure Tracked (arrived : List Nat) (e : Endpoint) (c : Receiver (List Packet)) : Prop where
  seq : e.controlSeq = seqOf e.sent.length
  window : e.sent.length ≤ c.app.length + 256
  settled : Settled e.sent arrived c
  genuine : ∀ m ∈ e.underWay, m.seq = seqOf m.ord ∧ e.sent[m.ord]? = some m.pkt ∧
    m.ord ∉ arrived
  nodup : (e.underWay.map Message.ord).Nodup
  covered : ∀ i < e.sent.length, i ∈ arrived ∨ i ∈ e.underWay.map Message.ord
  closed : e.ClosedIdle

theorem Tracked.init : Tracked [] {} { app := [] } where
  seq := rfl
  window := Nat.zero_le _
  settled := Settled.init []
  genuine := by simp [Endpoint.underWay]
  nodup := by simp [Endpoint.underWay]
  covered := by simp
  closed := by simp [Endpoint.ClosedIdle]

/-- A step that leaves the frames of an end under way. -/
structure Keeps (e e' : Endpoint) : Prop where
  controlSeq : e'.controlSeq = e.controlSeq
  sent : e'.sent = e.sent
  receiver : e'.receiver = e.receiver
  underWay : e'.underWay.Perm e.underWay
  closed : e'.ClosedIdle

theorem Keeps.refl (h : e.ClosedIdle) : Keeps e e := ⟨rfl, rfl, rfl, List.Perm.refl _, h⟩

theorem Tracked.keep {arrived : List Nat} (h : Tracked arrived e c) (hk : Keeps e e') :
    Tracked arrived e' c where
  seq := by rw [hk.controlSeq, hk.sent, h.seq]
  window := by rw [hk.sent]; exact h.window
  settled := by rw [hk.sent]; exact h.settled
  genuine m hm := by rw [hk.sent]; exact h.genuine m (hk.underWay.subset hm)
  nodup := (hk.underWay.map Message.ord).nodup_iff.mpr h.nodup
  covered i hi := by
    rw [hk.sent] at hi
    rcases h.covered i hi with harr | hway
    · exact .inl harr
    · exact .inr ((hk.underWay.map Message.ord).symm.subset hway)
  closed := hk.closed

/-! ## Changing one connection -/

theorem underWay_modify {i : Nat} {k : Conn} (f : Conn → Conn) (h : e.conns[i]? = some k) :
    ∃ before after, e.underWay = before ++ (k.writer ++ k.flight) ++ after ∧
      (e.modifyConn i f).underWay = before ++ ((f k).writer ++ (f k).flight) ++ after := by
  obtain ⟨hi, rfl⟩ := List.getElem?_eq_some_iff.mp h
  have hsplit : e.conns = e.conns.take i ++ e.conns[i] :: e.conns.drop (i + 1) := by
    rw [List.getElem_cons_drop, List.take_append_drop]
  have hmodify : e.conns.modify i f = e.conns.take i ++ f e.conns[i] :: e.conns.drop (i + 1) := by
    rw [List.modify_eq_take_cons_drop hi]
  refine ⟨(e.conns.take i).flatMap fun c => c.writer ++ c.flight,
    (e.conns.drop (i + 1)).flatMap fun c => c.writer ++ c.flight, ?_, ?_⟩
  · rw [Endpoint.underWay]
    conv => lhs; rw [hsplit]
    simp only [List.flatMap_append, List.flatMap_cons, List.append_assoc]
  · rw [Endpoint.underWay, Endpoint.modifyConn, hmodify]
    simp only [List.flatMap_append, List.flatMap_cons, List.append_assoc]

theorem closedIdle_modify {i : Nat} {f : Conn → Conn} (h : e.ClosedIdle)
    (hf : ∀ k ∈ e.conns[i]?, (f k).isOpen = false → (f k).writer = [] ∧ (f k).flight = []) :
    (e.modifyConn i f).ClosedIdle := by
  intro k hk hclosed
  obtain ⟨j, hj⟩ := List.mem_iff_getElem?.mp hk
  rw [Endpoint.modifyConn, List.getElem?_modify, Option.map_eq_map,
    Option.map_eq_some_iff] at hj
  obtain ⟨k₀, hk₀, rfl⟩ := hj
  by_cases hij : i = j
  · subst hij
    rw [if_pos rfl] at hclosed ⊢
    exact hf k₀ hk₀ hclosed
  · rw [if_neg hij] at hclosed ⊢
    exact h k₀ (List.mem_of_getElem? hk₀) hclosed

/-- A connection may change as long as it keeps its frames. -/
theorem keeps_modify {i : Nat} {f : Conn → Conn} (h : e.ClosedIdle)
    (hf : ∀ k ∈ e.conns[i]?, ((f k).writer ++ (f k).flight).Perm (k.writer ++ k.flight) ∧
      ((f k).isOpen = false → (f k).writer = [] ∧ (f k).flight = [])) :
    Keeps e (e.modifyConn i f) := by
  refine ⟨rfl, rfl, rfl, ?_, closedIdle_modify h fun k hk => (hf k hk).2⟩
  cases hi : e.conns[i]? with
  | none =>
      have hsame : e.conns.modify i f = e.conns :=
        List.modify_eq_self (List.getElem?_eq_none_iff.mp hi)
      rw [Endpoint.modifyConn, hsame]
  | some k =>
      obtain ⟨before, after, hold, hnew⟩ := underWay_modify f hi
      rw [hold, hnew]
      exact ((hf k hi).1.append_left before).append_right after

/-! ## Sending -/

theorem pick_some {conns : List Conn} {start idx : Nat} (h : pick conns start = some idx) :
    ∃ k, conns[idx]? = some k ∧ k.isOpen = true := by
  have hopen := List.find?_some h
  cases hk : conns[idx]? with
  | none => simp [hk] at hopen
  | some k => exact ⟨k, rfl, by simpa [hk] using hopen⟩

/-- The round through the connections finds an open one when there is one. -/
theorem pick_isSome {conns : List Conn} {start : Nat} (hstart : start ≤ conns.length)
    (h : ∃ k ∈ conns, k.isOpen = true) : (pick conns start).isSome := by
  obtain ⟨k, hk, hopen⟩ := h
  obtain ⟨j, hj⟩ := List.mem_iff_getElem?.mp hk
  have hlt : j < conns.length := (List.getElem?_eq_some_iff.mp hj).1
  have hround : (start + (j + (conns.length - start)) % conns.length) % conns.length = j := by
    rw [Nat.add_mod_mod, show start + (j + (conns.length - start)) = j + conns.length by omega,
      Nat.add_mod_right, Nat.mod_eq_of_lt hlt]
  rw [pick, List.find?_isSome]
  refine ⟨j, ?_, by simp [hj, hopen]⟩
  rw [List.mem_map]
  exact ⟨_, List.mem_range.mpr (Nat.mod_lt _ (by omega)), hround⟩

/-- With an open connection the message is queued there. -/
theorem sendControl_spec (pkt : Packet) (h : e.ClosedIdle)
    (hopen : ∃ k ∈ e.conns, k.isOpen = true) :
    (e.sendControl pkt).controlSeq = e.controlSeq + 1 ∧
      (e.sendControl pkt).sent = e.sent ++ [pkt] ∧
      (e.sendControl pkt).receiver = e.receiver ∧
      (e.sendControl pkt).underWay.Perm (⟨e.sent.length, e.controlSeq, pkt⟩ :: e.underWay) ∧
      (e.sendControl pkt).ClosedIdle := by
  have hne : e.conns ≠ [] := by
    obtain ⟨k, hk, -⟩ := hopen
    exact List.ne_nil_of_mem hk
  have hpos : 0 < e.conns.length := List.length_pos_iff.mpr hne
  have hstart := Nat.mod_lt e.rrCounter hpos
  obtain ⟨idx, hidx⟩ := Option.isSome_iff_exists.mp (pick_isSome hstart.le hopen)
  obtain ⟨k, hk, hkopen⟩ := pick_some hidx
  simp only [Endpoint.sendControl, if_neg hne, hidx]
  refine ⟨rfl, rfl, rfl, ?_, ?_⟩
  · generalize hm : (⟨e.sent.length, e.controlSeq, pkt⟩ : Message) = m
    obtain ⟨before, after, hold, hnew⟩ := underWay_modify
      (fun c => { c with writer := c.writer ++ [m] }) hk
    apply List.Perm.trans (List.Perm.of_eq hnew)
    rw [hold, List.perm_iff_count]
    intro a
    simp only [List.count_append, List.count_cons, List.count_nil]
    omega
  · apply closedIdle_modify h
    intro k' hk' hclosed
    have heq : k' = k := Option.some.inj (hk'.symm.trans hk)
    rw [heq, hkopen] at hclosed
    cases hclosed

/-- The receiver's view does not change when the sender numbers another message. -/
theorem Settled.sent_append {sent : List Packet} {arrived : List Nat}
    {c : Receiver (List Packet)} (h : Settled sent arrived c) (pkt : Packet) :
    Settled (sent ++ [pkt]) arrived c := by
  obtain ⟨hh, hwait⟩ := h
  refine ⟨⟨?_, ?_, hh.exp_eq, hh.below, ?_, ?_, hh.flags⟩, hwait⟩
  · rw [List.take_append_of_le_length hh.le]
    exact hh.app_eq
  · have := hh.le
    rw [List.length_append]
    omega
  · intro i hi
    have := hh.window i hi
    rw [List.length_append]
    omega
  · intro i hi hle
    have hlt := (hh.window i hi).1
    rw [List.getElem?_append_left hlt]
    exact hh.held i hi hle

theorem Tracked.send {arrived : List Nat} (h : Tracked arrived e c) (pkt : Packet)
    (hopen : ∃ k ∈ e.conns, k.isOpen = true) (hwin : e.sent.length < c.app.length + 256) :
    Tracked arrived (e.sendControl pkt) c := by
  obtain ⟨hseq, hsent, -, hway, hclosed⟩ := sendControl_spec pkt h.closed hopen
  have hnew : e.sent.length ∉ e.underWay.map Message.ord := by
    rw [List.mem_map]
    rintro ⟨m, hm, hord⟩
    have hget := (h.genuine m hm).2.1
    rw [hord, List.getElem?_eq_none (Nat.le_refl _)] at hget
    cases hget
  refine ⟨?_, ?_, ?_, ?_, ?_, ?_, hclosed⟩
  · rw [hseq, hsent, h.seq, seqOf_succ, List.length_append]
    rfl
  · rw [hsent, List.length_append, List.length_singleton]
    omega
  · rw [hsent]
    exact h.settled.sent_append pkt
  · intro m hm
    rw [hsent]
    rcases List.mem_cons.mp (hway.subset hm) with rfl | hm
    · refine ⟨h.seq, by simp, fun harr => ?_⟩
      have := (h.settled.holds.window _ harr).1
      simp at this
    · obtain ⟨hm₁, hm₂, hm₃⟩ := h.genuine m hm
      refine ⟨hm₁, ?_, hm₃⟩
      rw [List.getElem?_append_left (List.getElem?_eq_some_iff.mp hm₂).1, hm₂]
  · rw [(hway.map Message.ord).nodup_iff, List.map_cons, List.nodup_cons]
    exact ⟨hnew, h.nodup⟩
  · intro i hi
    rw [hsent, List.length_append, List.length_singleton] at hi
    have hmem := (hway.map Message.ord).symm.subset
    rcases Nat.lt_succ_iff_lt_or_eq.mp hi with hi | rfl
    · rcases h.covered i hi with harr | hway'
      · exact .inl harr
      · exact .inr (hmem (List.mem_cons_of_mem _ hway'))
    · exact .inr (hmem List.mem_cons_self)

/-! ## Delivering -/

theorem Tracked.deliver {arrived : List Nat} {m : Message} (h : Tracked arrived e c)
    (hseq : e'.controlSeq = e.controlSeq) (hsent : e'.sent = e.sent)
    (hway : e.underWay.Perm (m :: e'.underWay)) (hclosed : e'.ClosedIdle) :
    Tracked (m.ord :: arrived) e' (deliverControl record c m.seq m.pkt) := by
  obtain ⟨hm₁, hm₂, hm₃⟩ := h.genuine m (hway.symm.subset List.mem_cons_self)
  have hlt := (List.getElem?_eq_some_iff.mp hm₂).1
  have harrive : deliverControl record c m.seq m.pkt = arrive e.sent c m.ord := by
    rw [arrive, hm₁, List.getD, hm₂]
    rfl
  have hsettled : Settled e.sent (m.ord :: arrived) (arrive e.sent c m.ord) :=
    h.settled.arrive hlt hm₃ (by have := h.window; omega)
  have hgrow : c.app.length ≤ (arrive e.sent c m.ord).app.length := by
    by_contra hless
    have hwait := hsettled.waiting
    have hbelow := h.settled.holds.below (arrive e.sent c m.ord).app.length (by omega)
    exact hwait (List.mem_cons_of_mem _ hbelow)
  have hnodup := (hway.map Message.ord).nodup_iff.mp h.nodup
  rw [List.map_cons, List.nodup_cons] at hnodup
  rw [harrive]
  refine ⟨by rw [hseq, hsent, h.seq], ?_, by rw [hsent]; exact hsettled, ?_, hnodup.2, ?_, hclosed⟩
  · have := h.window
    rw [hsent]
    omega
  · intro m' hm'
    obtain ⟨h₁, h₂, h₃⟩ := h.genuine m' (hway.symm.subset (List.mem_cons_of_mem m hm'))
    refine ⟨h₁, by rw [hsent]; exact h₂, ?_⟩
    rw [List.mem_cons, not_or]
    exact ⟨fun heq => hnodup.1 (heq ▸ List.mem_map_of_mem hm'), h₃⟩
  · intro i hi
    rw [hsent] at hi
    rcases h.covered i hi with harr | hmem
    · exact .inl (List.mem_cons_of_mem _ harr)
    · rcases List.mem_cons.mp ((hway.map Message.ord).subset hmem) with rfl | hmem
      · exact .inl List.mem_cons_self
      · exact .inr hmem

/-! ## Runs -/

/-- Both directions are tracked. -/
def Intact (p : Pair) : Prop :=
  ∀ r, ∃ arrived, Tracked arrived (p.ends r) (p.ends (peer r)).receiver

theorem Intact.closed (h : Intact p) (r : Role) : (p.ends r).ClosedIdle := by
  obtain ⟨arrived, ht⟩ := h r
  exact ht.closed

theorem Intact.keeps (h : Intact p) (hk : ∀ r, Keeps (p.ends r) (p'.ends r)) : Intact p' := by
  intro r
  obtain ⟨arrived, ht⟩ := h r
  exact ⟨arrived, by rw [(hk (peer r)).receiver]; exact ht.keep (hk r)⟩

@[simp] theorem Pair.ends_set_self (p : Pair) (r : Role) (e : Endpoint) : (p.set r e).ends r = e :=
  Function.update_self _ _ _

theorem Pair.ends_set_of_ne (p : Pair) {r x : Role} (e : Endpoint) (h : x ≠ r) :
    (p.set r e).ends x = p.ends x :=
  Function.update_of_ne h _ _

theorem peer_ne (r : Role) : peer r ≠ r := by
  cases r <;> decide

@[simp] theorem peer_peer (r : Role) : peer (peer r) = r := by
  cases r <;> rfl

theorem eq_or_eq_peer (r x : Role) : x = r ∨ x = peer r := by
  cases r <;> cases x <;> first | exact .inl rfl | exact .inr rfl

/-- A change of one end that keeps its frames. -/
theorem Intact.set (h : Intact p) {r : Role} (hk : Keeps (p.ends r) e) : Intact (p.set r e) := by
  apply h.keeps
  intro x
  by_cases hx : x = r
  · subst hx
    rw [Pair.ends_set_self]
    exact hk
  · rw [Pair.ends_set_of_ne p e hx]
    exact Keeps.refl (h.closed x)

theorem Intact.send (h : Intact p) {r : Role} {pkt : Packet} (hc : Careful p (.send r pkt)) :
    Intact (p.set r ((p.ends r).sendControl pkt)) := by
  intro x
  obtain ⟨arrived, ht⟩ := h x
  refine ⟨arrived, ?_⟩
  rcases eq_or_eq_peer r x with rfl | rfl
  · rw [Pair.ends_set_self, Pair.ends_set_of_ne p _ (peer_ne x)]
    exact ht.send pkt hc.1 hc.2
  · have hrec := (sendControl_spec pkt (h.closed r) hc.1).2.2.1
    rw [peer_peer] at ht ⊢
    rw [Pair.ends_set_self, Pair.ends_set_of_ne p _ (peer_ne r), hrec]
    exact ht

theorem Intact.deliver (h : Intact p) {r : Role} {i : Nat} {k : Conn} {m : Message}
    {rest : List Message} (hk : (p.ends r).conns[i]? = some k) (hm : k.flight = m :: rest) :
    Intact ((p.set (peer r) { p.ends (peer r) with
        receiver := deliverControl record (p.ends (peer r)).receiver m.seq m.pkt }).set r
      ((p.ends r).modifyConn i fun c => { c with flight := c.flight.tail })) := by
  obtain ⟨before, after, hold, hnew⟩ := underWay_modify
    (fun c => { c with flight := c.flight.tail }) hk
  have hclosed : ((p.ends r).modifyConn i fun c =>
      { c with flight := c.flight.tail }).ClosedIdle := by
    apply closedIdle_modify (h.closed r)
    intro k' hk' hopen
    obtain ⟨hw, hf⟩ := h.closed r k' (List.mem_of_getElem? hk') hopen
    exact ⟨hw, by simp [hf]⟩
  have hway : (p.ends r).underWay.Perm (m :: ((p.ends r).modifyConn i fun c =>
      { c with flight := c.flight.tail }).underWay) := by
    rw [hold, hnew, hm, List.tail_cons, List.perm_iff_count]
    intro a
    simp only [List.count_append, List.count_cons]
    omega
  intro x
  obtain ⟨arrived, ht⟩ := h x
  rcases eq_or_eq_peer r x with rfl | rfl
  · refine ⟨m.ord :: arrived, ?_⟩
    rw [Pair.ends_set_self, Pair.ends_set_of_ne _ _ (peer_ne x), Pair.ends_set_self]
    exact ht.deliver rfl rfl hway hclosed
  · refine ⟨arrived, ?_⟩
    rw [peer_peer] at ht ⊢
    rw [Pair.ends_set_self, Pair.ends_set_of_ne _ _ (peer_ne r), Pair.ends_set_self]
    exact ⟨ht.seq, ht.window, ht.settled, ht.genuine, ht.nodup, ht.covered, ht.closed⟩

theorem Intact.grow (h : Intact p) (r : Role) :
    Intact (p.set r { p.ends r with conns := (p.ends r).conns ++ [{}] }) := by
  refine h.set ⟨rfl, rfl, rfl, by simp [Endpoint.underWay], ?_⟩
  intro k hk hopen
  rcases List.mem_append.mp hk with hk | hk
  · exact h.closed r k hk hopen
  · rw [List.mem_singleton.mp hk]
    exact ⟨rfl, rfl⟩

/-- The server takes over the socket of the client; only an open connection loses its
writer. -/
theorem Intact.attach (h : Intact p) {i : Nat} (hc : Careful p (.attach i)) {sock : Nat}
    {sc : Conn} (hsc : (p.ends .server).conns[i]? = some sc) :
    Intact (p.set .server ((p.ends .server).modifyConn i fun c =>
      { isOpen := true, sock := sock, writer := if sc.isOpen then [] else c.writer })) := by
  apply h.set
  apply keeps_modify (h.closed .server)
  intro k hk
  obtain rfl : sc = k := Option.some.inj (hsc.symm.trans hk)
  obtain ⟨hf, hw⟩ := hc sc hk
  by_cases hopen : sc.isOpen = true
  · simp [hopen, hf, hw hopen]
  · simp [hopen, hf]

/-- A frame that goes from the writer to the socket stays under way. -/
theorem Intact.flush (h : Intact p) {r : Role} {i sock : Nat} {m : Message}
    {writer flight : List Message}
    (hk : (p.ends r).conns[i]? = some ⟨true, sock, m :: writer, flight⟩) :
    Intact (p.set r ((p.ends r).modifyConn i fun c =>
      { c with writer := c.writer.tail, flight := c.flight ++ [m] })) := by
  apply h.set
  apply keeps_modify (h.closed r)
  intro k hk'
  obtain rfl := Option.some.inj (hk.symm.trans hk')
  refine ⟨?_, fun hopen => by cases hopen⟩
  rw [List.perm_iff_count]
  intro a
  simp only [List.tail_cons, List.count_append, List.count_cons, List.count_nil]
  omega

theorem Intact.clear (h : Intact p) {r : Role} {i : Nat} (hc : Careful p (.clear r i)) :
    Intact (p.set r ((p.ends r).modifyConn i fun c => { c with writer := [] })) := by
  apply h.set
  apply keeps_modify (h.closed r)
  intro k hk
  have hw := hc k hk
  refine ⟨by simp [hw], fun hopen => ⟨rfl, ?_⟩⟩
  exact (h.closed r k (List.mem_of_getElem? hk) hopen).2

theorem Intact.lose (h : Intact p) {i : Nat} (hc : Careful p (.lose i)) :
    Intact { p with ends := fun r => (p.ends r).modifyConn i fun c => { c with flight := [] } } := by
  apply h.keeps
  intro r
  apply keeps_modify (h.closed r)
  intro k hk
  have hf : k.flight = [] := by
    cases r with
    | client => exact hc.1 k hk
    | server => exact hc.2 k hk
  refine ⟨by simp [hf], fun hopen => ⟨?_, rfl⟩⟩
  exact (h.closed r k (List.mem_of_getElem? hk) hopen).1

/-- Closing everything drops nothing, because the open connections are idle. -/
theorem Intact.onDisconnect (h : Intact p) (hc : Careful p .onDisconnect) :
    Intact (p.set .server { p.ends .server with
      conns := (p.ends .server).conns.map fun c =>
        if c.isOpen then { c with isOpen := false, writer := [] } else c }) := by
  have hsame : ∀ k ∈ (p.ends .server).conns,
      (if k.isOpen then { k with isOpen := false, writer := [] } else k).writer = k.writer ∧
      (if k.isOpen then { k with isOpen := false, writer := [] } else k).flight = k.flight := by
    intro k hk
    split
    · rename_i hopen
      exact ⟨(hc k hk hopen).1.symm, rfl⟩
    · exact ⟨rfl, rfl⟩
  refine h.set ⟨rfl, rfl, rfl, ?_, ?_⟩
  · apply List.Perm.of_eq
    simp only [Endpoint.underWay, List.flatMap_map]
    apply List.flatMap_congr
    intro k hk
    rw [(hsame k hk).1, (hsame k hk).2]
  · intro k hk _
    obtain ⟨k₀, hk₀, rfl⟩ := List.mem_map.mp hk
    rw [(hsame k₀ hk₀).1, (hsame k₀ hk₀).2]
    by_cases hopen : k₀.isOpen = true
    · exact hc k₀ hk₀ hopen
    · exact h.closed .server k₀ hk₀ (Bool.eq_false_of_not_eq_true hopen)

theorem Intact.step {a : Action} (h : Intact p) (hc : Careful p a) (hs : step p a = some p') :
    Intact p' := by
  cases a with
  | grow r =>
      obtain rfl := Option.some.inj hs
      exact h.grow r
  | connect i =>
      simp only [Control.step] at hs
      split at hs
      · cases hs
      · obtain rfl := Option.some.inj hs
        have hset := h.set (keeps_modify (i := i)
          (f := fun _ => { isOpen := true, sock := p.socks + 1 }) (h.closed .client) fun k hk => by
            obtain ⟨hw, hf⟩ := hc k hk
            simp [hw, hf])
        exact hset
  | attach i =>
      simp only [Control.step] at hs
      split at hs
      · rename_i cc sc hcc hsc
        split at hs
        · obtain rfl := Option.some.inj hs
          exact h.attach hc hsc
        · cases hs
      · cases hs
  | send r pkt =>
      obtain rfl := Option.some.inj hs
      exact h.send hc
  | flush r i =>
      simp only [Control.step] at hs
      split at hs
      · rename_i sock m writer flight hk
        obtain rfl := Option.some.inj hs
        exact h.flush hk
      · cases hs
  | deliver r i =>
      simp only [Control.step] at hs
      split at hs
      · rename_i isOpen sock writer m rest k hk hk'
        split at hs
        · obtain rfl := Option.some.inj hs
          exact h.deliver hk rfl
        · cases hs
      · cases hs
  | clear r i =>
      obtain rfl := Option.some.inj hs
      exact h.clear hc
  | lose i =>
      obtain rfl := Option.some.inj hs
      exact h.lose hc
  | close r i =>
      obtain rfl := Option.some.inj hs
      apply h.set
      apply keeps_modify (h.closed r)
      intro k hk
      exact ⟨List.Perm.refl _, fun _ => hc k hk⟩
  | onDisconnect =>
      obtain rfl := Option.some.inj hs
      exact h.onDisconnect hc

/-- The message of index `i` is in a writer or in the socket of an open connection. -/
def Endpoint.Carries (e : Endpoint) (i : Nat) : Prop :=
  ∃ k ∈ e.conns, k.isOpen = true ∧ ∃ m ∈ k.writer ++ k.flight, m.ord = i

/-- The message of index `i` is applied, parked in its slot, or carried. -/
def Accounted (e : Endpoint) (c : Receiver (List Packet)) (i : Nat) : Prop :=
  i < c.app.length ∨
    (c.pendingControlValid (seqOf i) = true ∧ e.sent[i]? = some (c.pendingControl (seqOf i))) ∨
    e.Carries i

instance (e : Endpoint) (c : Receiver (List Packet)) (i : Nat) : Decidable (Accounted e c i) :=
  inferInstanceAs (Decidable (i < c.app.length ∨
    (c.pendingControlValid (seqOf i) = true ∧ e.sent[i]? = some (c.pendingControl (seqOf i))) ∨
    ∃ k ∈ e.conns, k.isOpen = true ∧ ∃ m ∈ k.writer ++ k.flight, m.ord = i))

end PipelineTunnel.Control
