import PipelineTunnel.Server.Lifecycle
import PipelineTunnel.Lib.StepSystem

/-!
# Connection ids

`alloc_conn_id` takes its number from a static counter that all sessions share. Its loop is
meant to look for a free number, but the counter moves on only behind the `return`: the loop
tests one number 256 times. It tests the targets of the session alone, not the connects in
progress, and the number it finds may be `CONN_ID_NONE`.

## Implementation notes

`connecting` of a `Core` lists the connects in progress, also those whose entry in
`pending_connects_` was taken over by another request with the same id. The `overwritten`
field records every target that was opened in the place of a live one.
-/

namespace PipelineTunnel.ConnIds

open Protocol StepSystem
open Lifecycle (Core PendingConnect TargetConn World CONN_ID_NONE)

/-! ## The allocation -/

/-- The loop of `alloc_conn_id`: the id it returns, and the counter. -/
def allocLoop (targets : UInt8 → Option TargetConn) : Nat → UInt8 → UInt8 × UInt8
  | 0, next => (CONN_ID_NONE, next)
  | n + 1, next => if (targets next).isNone then (next, next + 1) else allocLoop targets n next

def allocConnId (core : Core) (next : UInt8) : UInt8 × UInt8 := allocLoop core.targets 256 next

theorem allocLoop_eq (targets : UInt8 → Option TargetConn) (n : Nat) (next : UInt8) :
    allocLoop targets (n + 1) next =
      if (targets next).isNone then (next, next + 1) else (CONN_ID_NONE, next) := by
  induction n with
  | zero => rfl
  | succ n ih =>
      rw [allocLoop, ih]
      split_ifs <;> rfl

theorem allocConnId_eq (core : Core) (next : UInt8) :
    allocConnId core next =
      if (core.targets next).isNone then (next, next + 1) else (CONN_ID_NONE, next) :=
  allocLoop_eq core.targets 255 next

/-- The environment of a session at a value of the counter. -/
def withCounter (w : World) (next : UInt8) : World := { w with nextConnId := fun _ => next }

/-- A session that finds the counter at `next` gets the id of the loop. -/
theorem allocConnId_fst (w : World) (core : Core) (next : UInt8) :
    (allocConnId core next).1 = Lifecycle.allocConnId (withCounter w next) core := by
  rw [allocConnId_eq, Lifecycle.allocConnId]
  by_cases hfree : (core.targets next).isNone = true
  · simp [withCounter, hfree]
  · simp [withCounter, hfree]

/-! ## Which ids are free -/

/-- The ids of the connects in progress. -/
def connectingIds (core : Core) : List UInt8 := core.connecting.map PendingConnect.connId

/-- A target or a connect in progress of the session has this id. -/
def used (core : Core) (connId : UInt8) : Bool :=
  (core.targets connId).isSome || decide (connId ∈ connectingIds core)

/-- The ids below `CONN_ID_NONE`. -/
def connIds : List UInt8 := (List.range 255).map UInt8.ofNat

/-- While fewer than 255 ids are in use an id is returned, and never one that is in use. -/
structure AllocOk (core : Core) (next : UInt8) : Prop where
  found : connIds.countP (used core) < 255 → (allocConnId core next).1 ≠ CONN_ID_NONE
  unused : (allocConnId core next).1 ≠ CONN_ID_NONE → used core (allocConnId core next).1 = false

/-- The counter stands at a free id; or none is free, and it stands at `CONN_ID_NONE` or at the
id of a target. -/
def CounterFree (core : Core) (next : UInt8) : Prop :=
  next ≠ CONN_ID_NONE ∧ used core next = false ∨
    (∀ connId ∈ connIds, used core connId = true) ∧
      (next = CONN_ID_NONE ∨ (core.targets next).isSome = true)

instance (core : Core) (next : UInt8) : Decidable (CounterFree core next) :=
  inferInstanceAs (Decidable (_ ∨ _))

theorem length_connIds : connIds.length = 255 := by
  rw [connIds, List.length_map, List.length_range]

/-- Fewer than 255 ids are in use when one of them is not. -/
theorem countP_lt_iff (core : Core) :
    connIds.countP (used core) < 255 ↔ ¬ ∀ connId ∈ connIds, used core connId = true := by
  have hle := List.countP_le_length (p := used core) (l := connIds)
  rw [← List.countP_eq_length, length_connIds]
  rw [length_connIds] at hle
  omega

theorem targets_of_unused {core : Core} {connId : UInt8} (h : used core connId = false) :
    (core.targets connId).isNone = true := by
  cases htarget : core.targets connId with
  | none => rfl
  | some target => simp [used, htarget] at h

/-- The allocation is right exactly where the counter happens to stand at a free id. -/
theorem allocOk_iff (core : Core) (next : UInt8) : AllocOk core next ↔ CounterFree core next := by
  constructor
  · rintro ⟨hfound, hunused⟩
    rw [countP_lt_iff] at hfound
    rw [allocConnId_eq] at hfound hunused
    by_cases hnone : (core.targets next).isNone = true
    · rw [if_pos hnone] at hfound hunused
      by_cases hnext : next = CONN_ID_NONE
      · exact .inr ⟨not_imp_not.mp hfound hnext, .inl hnext⟩
      · exact .inl ⟨hnext, hunused hnext⟩
    · rw [if_neg hnone] at hfound
      refine .inr ⟨not_imp_not.mp hfound rfl, .inr ?_⟩
      simpa [Option.isSome_iff_ne_none] using hnone
  · rintro (⟨hsome, hfree⟩ | ⟨hall, hstop⟩)
    · have halloc : (allocConnId core next).1 = next := by
        rw [allocConnId_eq, if_pos (targets_of_unused hfree)]
      exact ⟨fun _ => by rwa [halloc], fun _ => by rwa [halloc]⟩
    · have halloc : (allocConnId core next).1 = CONN_ID_NONE := by
        rw [allocConnId_eq]
        rcases hstop with rfl | hsome
        · split_ifs <;> rfl
        · rw [if_neg (by simpa [Option.isSome_iff_ne_none] using hsome)]
      exact ⟨fun hlt => absurd hall ((countP_lt_iff core).mp hlt), fun hne => absurd halloc hne⟩

/-! ## The sessions of a server -/

structure Server where
  next : UInt8
  sessions : List Core
  overwritten : List UInt8 := []

/-- What happens to session `i`. -/
inductive Label where
  | connectReq (i : Nat) (pkt : Packet)
  /-- The handler of a connect in progress; both branches that fail do the same. -/
  | connectDone (i : Nat) (pending : PendingConnect) (ok : Bool)
  | connectCancel (i : Nat) (pkt : Packet)
  | connectTimeout (i : Nat) (reqId : UInt8)
  | closeTarget (i : Nat) (connId : UInt8)
deriving DecidableEq, Repr

/-- `handle_connect_req` comes to `alloc_conn_id`. -/
def allocates (pkt : Packet) : Bool :=
  match pkt.payload with
  | _ :: addrLen :: rest => decide (addrLen.toNat ≤ rest.length)
  | _ => false

/-- The ids of the targets opened since. -/
def opened (core core' : Core) : List UInt8 :=
  (core'.log.drop core.log.length).filterMap fun
    | .targetOpened connId => some connId
    | _ => none

/-- The ids among them that had a live target. -/
def overwrites (core core' : Core) : List UInt8 :=
  (opened core core').filter fun connId => (core.targets connId).isSome

/-- Session `i` acts. -/
def Server.act (s : Server) (i : Nat) (core core' : Core) : Server :=
  { s with
    sessions := s.sessions.set i core'
    overwritten := s.overwritten ++ overwrites core core' }

def Label.session : Label → Nat
  | .connectReq i _ | .connectDone i _ _ | .connectCancel i _ | .connectTimeout i _
  | .closeTarget i _ => i

/-- What a label does to its session. -/
def coreStep (w : World) (next : UInt8) (core : Core) : Label → Option Core
  | .connectReq _ pkt => some (Lifecycle.handleConnectReq (withCounter w next) core pkt)
  | .connectDone _ pending ok =>
      if pending ∈ core.connecting then some (Lifecycle.connectDone core pending ok) else none
  | .connectCancel _ pkt => some (Lifecycle.handleConnectCancel core pkt)
  | .connectTimeout _ reqId => some (Lifecycle.connectTimeout core reqId)
  | .closeTarget _ connId => some (Lifecycle.closeTarget core connId)

/-- The counter behind a step. -/
def counterAfter (next : UInt8) (core : Core) : Label → UInt8
  | .connectReq _ pkt => if allocates pkt then (allocConnId core next).2 else next
  | _ => next

def step (w : Nat → World) (s : Server) (l : Label) : Option Server :=
  match s.sessions[l.session]? with
  | none => none
  | some core =>
      (coreStep (w l.session) s.next core l).map fun core' =>
        { s.act l.session core core' with next := counterAfter s.next core l }

/-! ## What a step does to the ids of a session -/

/-- The connects in progress have different ids, and none of them has a target. -/
structure Reserved (core : Core) : Prop where
  distinct : (connectingIds core).Nodup
  free : ∀ connId ∈ connectingIds core, core.targets connId = none

/-- A step frees ids, opens the target of a free id, or begins a connect for a free id. -/
inductive Effect (core core' : Core) : Prop where
  | quiet (htargets : ∀ connId, core.targets connId = none → core'.targets connId = none)
      (hids : (connectingIds core').Sublist (connectingIds core)) (hopened : opened core core' = [])
  | opens (connId : UInt8) (target : TargetConn)
      (htargets : core'.targets = Function.update core.targets connId (some target))
      (hids : (connectingIds core').Sublist (connectingIds core))
      (hfree : core.targets connId = none) (hnew : connId ∉ connectingIds core')
      (hopened : opened core core' = [connId])
  | begins (connId : UInt8) (htargets : core'.targets = core.targets)
      (hids : connectingIds core' = connectingIds core ++ [connId])
      (hfree : core.targets connId = none) (hnew : connId ∉ connectingIds core)
      (hopened : opened core core' = [])

variable {core core' : Core}

theorem Reserved.effect (h : Reserved core) (heffect : Effect core core') :
    Reserved core' ∧ overwrites core core' = [] := by
  cases heffect with
  | quiet htargets hids hopened =>
      refine ⟨⟨h.distinct.sublist hids, fun connId hmem => ?_⟩, by rw [overwrites, hopened]; rfl⟩
      exact htargets connId (h.free connId (hids.subset hmem))
  | opens connId target htargets hids hfree hnew hopened =>
      refine ⟨⟨h.distinct.sublist hids, fun other hmem => ?_⟩, ?_⟩
      · have hne : other ≠ connId := fun heq => hnew (heq ▸ hmem)
        rw [htargets, Function.update_of_ne hne]
        exact h.free other (hids.subset hmem)
      · rw [overwrites, hopened]
        simp [hfree]
  | begins connId htargets hids hfree hnew hopened =>
      refine ⟨⟨?_, fun other hmem => ?_⟩, by rw [overwrites, hopened]; rfl⟩
      · rw [hids]
        exact List.nodup_append.mpr ⟨h.distinct, List.nodup_singleton connId, by
          rintro other hother _ hmem rfl
          rw [List.mem_singleton.mp hmem] at hother
          exact hnew hother⟩
      · rw [hids, List.mem_append, List.mem_singleton] at hmem
        rw [htargets]
        rcases hmem with hmem | rfl
        · exact h.free other hmem
        · exact hfree

/-- What was logged since decides which targets were opened. -/
theorem opened_of_log (new : List Lifecycle.Trace) (hlog : core'.log = core.log ++ new) :
    opened core core' = new.filterMap fun
      | .targetOpened connId => some connId
      | _ => none := by
  rw [opened, hlog, List.drop_left]

theorem opened_of_same (hlog : core'.log = core.log) : opened core core' = [] :=
  opened_of_log [] (by rw [hlog, List.append_nil])

/-- The connects in progress can only get fewer. -/
theorem effect_fail (pendingConnects : UInt8 → Option PendingConnect)
    {connecting : List PendingConnect} (hsub : connecting.Sublist core.connecting)
    (attempts : Nat) (pkt : Packet) :
    Effect core (Core.sendControl { core with
      pendingConnects := pendingConnects, connecting := connecting, attempts := attempts } pkt) := by
  refine .quiet (fun connId hnone => by simpa using hnone) ?_ (opened_of_same (by simp))
  simpa [connectingIds] using hsub.map PendingConnect.connId

/-- A connect that succeeded opens its target. -/
theorem effect_onTargetConnected {connecting : List PendingConnect} {connId : UInt8}
    (hsub : connecting.Sublist core.connecting) (hfree : core.targets connId = none)
    (hnew : connId ∉ connecting.map PendingConnect.connId) (fd attempts : Nat) (reqId : UInt8)
    (new : List Lifecycle.Trace) (hlog : ∀ connId, .targetOpened connId ∉ new) :
    Effect core (Lifecycle.onTargetConnected { core with
      connecting := connecting, attempts := attempts, log := core.log ++ new } fd connId reqId) := by
  have hnone : new.filterMap (fun
      | .targetOpened connId => some connId
      | _ => none) = ([] : List UInt8) := by
    rw [List.filterMap_eq_nil_iff]
    intro trace hmem
    cases trace with
    | targetOpened connId => exact absurd hmem (hlog connId)
    | _ => rfl
  refine .opens connId ⟨fd, []⟩ ?_ ?_ hfree ?_ ?_
  · simp [Lifecycle.onTargetConnected, Lifecycle.openTarget, Core.note]
  · simpa [Lifecycle.onTargetConnected, Lifecycle.openTarget, Core.note, connectingIds] using
      hsub.map PendingConnect.connId
  · simpa [Lifecycle.onTargetConnected, Lifecycle.openTarget, Core.note, connectingIds] using hnew
  · rw [opened_of_log (new ++ [.targetOpened connId])
      (by simp [Lifecycle.onTargetConnected, Lifecycle.openTarget, Core.note])]
    rw [List.filterMap_append, hnone]
    rfl

theorem effect_setupTunnelTargetAsync (w : World) (addr : Bytes) {connId : UInt8} (reqId : UInt8)
    (attempts : Nat) (hfree : core.targets connId = none) (hnew : connId ∉ connectingIds core) :
    Effect core (Lifecycle.setupTunnelTargetAsync w { core with attempts := attempts } addr connId
      reqId) := by
  have hfail := effect_fail core.pendingConnects (List.Sublist.refl core.connecting) attempts
    ⟨MSG_CONNECT_FAIL, [connId, reqId]⟩
  rw [Lifecycle.setupTunnelTargetAsync]
  split_ifs
  · split
    · exact hfail
    · rename_i fd _
      have hopens := effect_onTargetConnected (List.Sublist.refl core.connecting) hfree hnew fd
        attempts reqId [] (fun _ => List.not_mem_nil)
      rwa [List.append_nil] at hopens
    · refine .begins connId rfl ?_ hfree hnew (opened_of_same rfl)
      simp [connectingIds]
  · exact hfail

theorem Effect.refl (core : Core) : Effect core core :=
  .quiet (fun _ => id) (List.Sublist.refl _) (opened_of_same rfl)

/-- A request that finds the counter at a free id. -/
theorem effect_handleConnectReq (w : World) (next : UInt8) (pkt : Packet)
    (hnew : allocates pkt = true → next ≠ CONN_ID_NONE → (core.targets next).isNone = true →
      next ∉ connectingIds core) :
    Effect core (Lifecycle.handleConnectReq (withCounter w next) core pkt) := by
  unfold Lifecycle.handleConnectReq
  split
  · rename_i reqId addrLen rest hpayload
    rw [← allocConnId_fst, allocConnId_eq]
    dsimp only
    by_cases hshort : rest.length < addrLen.toNat
    · rw [if_pos hshort]
      exact .refl core
    · rw [if_neg hshort]
      have halloc : allocates pkt = true := by
        simp only [allocates, hpayload, decide_eq_true_eq]
        omega
      by_cases hfree : (core.targets next).isNone = true
      · rw [if_pos hfree]
        split_ifs with hnone
        · exact effect_fail core.pendingConnects (List.Sublist.refl core.connecting) _ _
        · exact effect_setupTunnelTargetAsync _ _ reqId _ (Option.isNone_iff_eq_none.mp hfree)
            (hnew halloc hnone hfree)
      · rw [if_neg hfree, if_pos rfl]
        exact effect_fail core.pendingConnects (List.Sublist.refl core.connecting) _ _
  · exact .refl core

theorem effect_dropConnect (core : Core) (reqId : UInt8) (fd : Nat) :
    Effect core (Lifecycle.dropConnect core reqId fd) :=
  .quiet (fun _ => id) ((List.filter_sublist ..).map _) (opened_of_same rfl)

theorem effect_connectDone (h : Reserved core) {pending : PendingConnect}
    (hmem : pending ∈ core.connecting) (ok : Bool) :
    Effect core (Lifecycle.connectDone core pending ok) := by
  rw [Lifecycle.connectDone]
  cases ok with
  | true =>
      have hids := h.distinct
      rw [connectingIds, ((List.perm_cons_erase hmem).map PendingConnect.connId).nodup_iff,
        List.map_cons, List.nodup_cons] at hids
      exact effect_onTargetConnected List.erase_sublist
        (h.free pending.connId (List.mem_map_of_mem hmem)) hids.1 pending.fd core.attempts
        pending.reqId [.completed core.state] (by simp)
  | false =>
      exact effect_fail _ ((List.filter_sublist ..).trans List.erase_sublist) core.attempts _

theorem effect_coreStep {w : World} {next : UInt8} {l : Label} (h : Reserved core)
    (hnew : ∀ i pkt, l = .connectReq i pkt → allocates pkt = true → next ≠ CONN_ID_NONE →
      (core.targets next).isNone = true → next ∉ connectingIds core)
    (hstep : coreStep w next core l = some core') : Effect core core' := by
  cases l with
  | connectReq i pkt =>
      cases hstep
      exact effect_handleConnectReq w next pkt (hnew i pkt rfl)
  | connectDone i pending ok =>
      rw [coreStep] at hstep
      split_ifs at hstep with hmem
      cases hstep
      exact effect_connectDone h hmem ok
  | connectCancel i pkt =>
      cases hstep
      unfold Lifecycle.handleConnectCancel
      split
      · exact .refl core
      · split
        · exact .refl core
        · exact effect_dropConnect core _ _
  | connectTimeout i reqId =>
      cases hstep
      unfold Lifecycle.connectTimeout
      split
      · exact .refl core
      · exact effect_fail _ (List.filter_sublist ..) core.attempts _
  | closeTarget i connId =>
      cases hstep
      refine .quiet (fun other hnone => ?_) (List.Sublist.refl _) (opened_of_same rfl)
      by_cases heq : other = connId
      · simp only [heq, Lifecycle.closeTarget, Function.update_self]
      · simp only [Lifecycle.closeTarget, Function.update_of_ne heq, hnone]

/-! ## Runs -/

/-- A request that comes to `alloc_conn_id` finds the counter at a free id of its session. -/
def Finds (s : Server) : Label → Prop
  | .connectReq i pkt => allocates pkt = true → ∀ core ∈ s.sessions[i]?, CounterFree core s.next
  | _ => True

instance (s : Server) : ∀ l, Decidable (Finds s l)
  | .connectReq i _ => inferInstanceAs (Decidable (_ → ∀ core ∈ s.sessions[i]?, _))
  | .connectDone .. | .connectCancel .. | .connectTimeout .. | .closeTarget .. => isTrue trivial

/-- In every session the ids of the connects in progress are reserved, and no target was
overwritten so far. -/
structure Orderly (s : Server) : Prop where
  reserved : ∀ core ∈ s.sessions, Reserved core
  overwritten : s.overwritten = []

/-- The sessions have neither targets nor connects in progress; the counter stands anywhere. -/
structure Started (s : Server) : Prop where
  targets : ∀ core ∈ s.sessions, ∀ connId, core.targets connId = none
  connecting : ∀ core ∈ s.sessions, core.connecting = []
  overwritten : s.overwritten = []

theorem Started.orderly {s : Server} (h : Started s) : Orderly s := by
  refine ⟨fun core hmem => ⟨?_, ?_⟩, h.overwritten⟩
  · rw [connectingIds, h.connecting core hmem]
    exact List.nodup_nil
  · exact fun connId _ => h.targets core hmem connId

theorem Orderly.step {w : Nat → World} {s s' : Server} {l : Label} (h : Orderly s)
    (hfinds : Finds s l) (hstep : step w s l = some s') : Orderly s' := by
  rw [ConnIds.step] at hstep
  cases hcore : s.sessions[l.session]? with
  | none => simp [hcore] at hstep
  | some core =>
      rw [hcore] at hstep
      obtain ⟨core', hact, rfl⟩ := Option.map_eq_some_iff.mp hstep
      have hmem := List.mem_of_getElem? hcore
      have hnew : ∀ i pkt, l = .connectReq i pkt → allocates pkt = true →
          s.next ≠ CONN_ID_NONE → (core.targets s.next).isNone = true →
          s.next ∉ connectingIds core := by
        rintro i pkt rfl halloc hsome hnone hused
        rcases hfinds halloc core hcore with ⟨-, hfree⟩ | ⟨-, hstop | htarget⟩
        · simp [used, hused] at hfree
        · exact hsome hstop
        · rw [Option.isNone_iff_eq_none.mp hnone] at htarget
          cases htarget
      obtain ⟨hreserved, hkept⟩ :=
        (h.reserved core hmem).effect (effect_coreStep (h.reserved core hmem) hnew hact)
      constructor
      · intro other hother
        rcases List.mem_or_eq_of_mem_set hother with hold | rfl
        · exact h.reserved other hold
        · exact hreserved
      · change s.overwritten ++ overwrites core core' = []
        rw [h.overwritten, hkept]
        rfl

/-- In every reachable state `alloc_conn_id` is right for a session exactly when the counter
stands at a free id of it, or at no usable one while none is free; and in a run whose requests
all find the counter so, no connect that succeeds takes the place of a live target. -/
theorem connIds_allocated (w : Nat → World) {s s' : Server} (hstart : Started s) {ls : List Label}
    (hrun : run (step w) s ls = some s') :
    (∀ core ∈ s'.sessions, AllocOk core s'.next ↔ CounterFree core s'.next) ∧
      (Meets (step w) Finds s ls → s'.overwritten = []) := by
  constructor
  · exact fun core _ => allocOk_iff core s'.next
  · intro hmeets
    have horderly : Orderly s' :=
      invariant_of_meets (fun _ _ _ h hfinds hstep => h.step hfinds hstep) hstart.orderly hmeets hrun
    exact horderly.overwritten

/-- Every connect is in progress until its socket is ready. -/
def slowWorld : World where
  sessionId := 0
  password := []
  challenge1 := []
  hexSha256 := id
  hasModule := fun _ => true
  extraOutputs := fun _ => 0
  nextConnId := fun _ => 0
  connect := fun attempt _ _ => .inProgress attempt

/-- A request for the target `a:b`, and one for a name without a port. -/
def goodReq (reqId : UInt8) : Packet := ⟨MSG_CONNECT_REQ, [reqId, 3, 97, 58, 98]⟩
def badReq : Packet := ⟨MSG_CONNECT_REQ, [9, 1, 97]⟩

/-- Two sessions take turns with the counter. -/
def twoSessions : Server := { next := 0, sessions := [{}, {}] }

def turns : List Label :=
  [.connectReq 0 (goodReq 1), .connectReq 1 (goodReq 1), .connectReq 0 (goodReq 2),
    .connectDone 0 ⟨1, 0, 1⟩ true, .connectDone 0 ⟨2, 2, 2⟩ true]

theorem connIds_allocated_turns :
    ∃ s, run (step fun _ => slowWorld) twoSessions turns = some s ∧ s.overwritten = [] ∧
      ∀ core ∈ s.sessions, AllocOk core s.next := by
  have hstart : Started twoSessions := ⟨by simp [twoSessions], by simp [twoSessions], rfl⟩
  obtain ⟨s, hrun⟩ : ∃ s, run (step fun _ => slowWorld) twoSessions turns = some s :=
    Option.isSome_iff_exists.mp (by decide)
  obtain ⟨hiff, hkept⟩ := connIds_allocated (fun _ => slowWorld) hstart hrun
  refine ⟨s, hrun, hkept (by decide), fun core hmem => (hiff core hmem).mpr ?_⟩
  have hfree : ∀ s ∈ run (step fun _ => slowWorld) twoSessions turns,
      ∀ core ∈ s.sessions, s.next ≠ CONN_ID_NONE ∧ used core s.next = false := by decide
  exact .inl (hfree s hrun core hmem)

/-- A slow connect holds id 0. The failing requests that use up the other ids bring the counter
back to it, and at 255 one of them is refused although 254 ids are free. The next request gets
id 0 again, and when both connects succeed the second takes the place of the first. -/
def around : List Label :=
  .connectReq 0 (goodReq 1) :: List.replicate 255 (.connectReq 0 badReq) ++
    [.connectReq 0 (goodReq 2), .connectDone 0 ⟨1, 0, 1⟩ true, .connectDone 0 ⟨257, 0, 2⟩ true]

theorem connIds_overwritten :
    (∃ s, run (step fun _ => slowWorld) twoSessions (around.take 255) = some s ∧
      ∃ core ∈ s.sessions, ¬ AllocOk core s.next) ∧
    ∃ s, run (step fun _ => slowWorld) twoSessions around = some s ∧ s.overwritten = [0] := by
  constructor
  · have hrefused : ((run (step fun _ => slowWorld) twoSessions (around.take 255)).map fun s =>
        decide (∃ core ∈ s.sessions, ¬ CounterFree core s.next)) = some true := by decide +kernel
    obtain ⟨s, hrun, hstuck⟩ := Option.map_eq_some_iff.mp hrefused
    obtain ⟨core, hmem, hnot⟩ := of_decide_eq_true hstuck
    exact ⟨s, hrun, core, hmem, by rwa [allocOk_iff]⟩
  · have hlost : ((run (step fun _ => slowWorld) twoSessions around).map Server.overwritten) =
        some [0] := by decide +kernel
    exact Option.map_eq_some_iff.mp hlost

end PipelineTunnel.ConnIds
