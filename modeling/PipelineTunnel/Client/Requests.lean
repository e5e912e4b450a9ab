import PipelineTunnel.Client.External
import PipelineTunnel.Lib.StepSystem

/-!
# The ids of waiting requests

`on_listener_accept` numbers its requests with a byte that wraps around, and a reply is matched
by that number with the first entry of `pending_ext_`. The limit on the entries says nothing
about how old one may become: while one request waits, 255 others can come and go.

## Implementation notes

Requests are numbered in the order of the queue, and entries only ever leave it. So as long as
no number is given out twice the ages of the numbers fall from front to back, and the number
that is about to be given out can only be at the front.
-/

namespace PipelineTunnel.Client

open Protocol StepSystem

/-! ## The age of a number -/

/-- How many numbers were given out since this one; 255 is the number that comes next. -/
def age (next reqId : UInt8) : Nat := (next - 1 - reqId).toNat

theorem age_self (next : UInt8) : age (next + 1) next = 0 := by
  simp [age]

theorem eq_of_age {next reqId : UInt8} (h : age next reqId = 255) : reqId = next := by
  have := next.toNat_lt
  have := reqId.toNat_lt
  apply UInt8.toNat_inj.mp
  simp only [age, UInt8.toNat_sub, UInt8.toNat_one] at h
  omega

theorem age_succ {next reqId : UInt8} (h : age next reqId < 255) :
    age (next + 1) reqId = age next reqId + 1 := by
  have := next.toNat_lt
  have := reqId.toNat_lt
  simp only [age, UInt8.toNat_sub, UInt8.toNat_add, UInt8.toNat_one] at h ⊢
  omega

/-! ## What replies select -/

/-- The ids of the waiting requests. -/
def External.reqIds (e : External) : List UInt8 := e.pendingExt.map PendingConn.reqId

/-- The waiting requests have different ids, and a reply with the id of one selects it. -/
structure Unambiguous (e : External) : Prop where
  distinct : e.reqIds.Nodup
  selects : ∀ pc ∈ e.pendingExt, ∃ rest, takeReq pc.reqId e.pendingExt = some (pc, rest)

theorem takeReq_of_nodup {l : List PendingConn} (h : (l.map PendingConn.reqId).Nodup)
    {pc : PendingConn} (hmem : pc ∈ l) : ∃ rest, takeReq pc.reqId l = some (pc, rest) := by
  induction l with
  | nil => cases hmem
  | cons first l ih =>
      rw [List.map_cons, List.nodup_cons] at h
      rcases List.mem_cons.mp hmem with rfl | hmem
      · exact ⟨l, if_pos rfl⟩
      · have hne : first.reqId ≠ pc.reqId := fun heq => h.1 (heq ▸ List.mem_map_of_mem hmem)
        obtain ⟨rest, hrest⟩ := ih h.2 hmem
        refine ⟨first :: rest, ?_⟩
        rw [takeReq, if_neg hne, hrest]
        rfl

/-! ## Runs -/

/-- What happens to the queue; a control message may be any, at any time. -/
inductive RequestStep where
  | accept (cfd : Nat)
  | control (pkt : Packet)
  | timeout
deriving DecidableEq, Repr

def requestStep (targetAddr : Bytes) (e : External) : RequestStep → Option External
  | .accept cfd => some (e.onListenerAccept targetAddr cfd).1
  | .control pkt => some (e.applyControl pkt).1
  | .timeout => e.pendingTimeout.map Prod.fst

/-- When a connection is accepted for which there is room, the oldest waiting request is not
the one that was made 256 requests before. -/
def OldestGone (e : External) : RequestStep → Prop
  | .accept _ =>
      e.pendingExt.length < MAX_PENDING_EXT → ∀ front ∈ e.pendingExt.head?, front.reqId ≠ e.nextReqId
  | _ => True

instance (e : External) : ∀ l, Decidable (OldestGone e l)
  | .accept _ => inferInstanceAs (Decidable (_ → ∀ front ∈ e.pendingExt.head?, _))
  | .control _ | .timeout => isTrue trivial

/-- The ages of the ids fall from front to back. -/
def Aging (e : External) : Prop := e.reqIds.Pairwise fun a b => age e.nextReqId b < age e.nextReqId a

theorem Aging.unambiguous {e : External} (h : Aging e) : Unambiguous e := by
  have hdistinct : e.reqIds.Nodup := by
    refine h.imp fun hlt heq => ?_
    rw [heq] at hlt
    exact Nat.lt_irrefl _ hlt
  exact ⟨hdistinct, fun pc hmem => takeReq_of_nodup hdistinct hmem⟩

/-- Entries that leave the queue. -/
theorem Aging.of_sublist {e e' : External} (h : Aging e)
    (hsub : e'.pendingExt.Sublist e.pendingExt) (hnext : e'.nextReqId = e.nextReqId) : Aging e' := by
  rw [Aging, hnext]
  exact List.Pairwise.sublist (hsub.map PendingConn.reqId) h

/-- The front of the queue is the oldest. -/
theorem Aging.young {e : External} (h : Aging e)
    (hfront : ∀ front ∈ e.pendingExt.head?, front.reqId ≠ e.nextReqId) :
    ∀ reqId ∈ e.reqIds, age e.nextReqId reqId < 255 := by
  rw [Aging, External.reqIds] at h
  rw [External.reqIds]
  cases hpending : e.pendingExt with
  | nil => exact nofun
  | cons front rest =>
      rw [hpending, List.map_cons, List.pairwise_cons] at h
      have hold : age e.nextReqId front.reqId < 255 := by
        have hlt : age e.nextReqId front.reqId < 256 := UInt8.toNat_lt _
        have hne : age e.nextReqId front.reqId ≠ 255 := fun heq =>
          hfront front (by rw [hpending]; rfl) (eq_of_age heq)
        omega
      intro reqId hmem
      rcases List.mem_cons.mp hmem with rfl | hmem
      · exact hold
      · exact Nat.lt_trans (h.1 reqId hmem) hold

/-- Until the front of the queue is as old as it may be, one more entry fits behind it. -/
theorem Aging.concat {e : External} (h : Aging e)
    (hfront : ∀ front ∈ e.pendingExt.head?, front.reqId ≠ e.nextReqId) (cfd : Nat) :
    Aging { e with
      pendingExt := e.pendingExt ++ [⟨cfd, e.nextReqId⟩]
      nextReqId := e.nextReqId + 1 } := by
  have hyoung := h.young hfront
  rw [Aging, External.reqIds, List.map_append, List.pairwise_append]
  refine ⟨?_, List.pairwise_singleton _ _, ?_⟩
  · refine List.Pairwise.imp_of_mem (fun {a b} ha hb hlt => ?_) h
    rw [age_succ (hyoung a ha), age_succ (hyoung b hb)]
    omega
  · intro reqId hmem other hother
    rw [List.mem_singleton.mp hother, age_self, age_succ (hyoung reqId hmem)]
    exact Nat.succ_pos _

/-- A reply takes at most one entry out. -/
theorem applyControl_sublist (e : External) (pkt : Packet) :
    (e.applyControl pkt).1.pendingExt.Sublist e.pendingExt ∧
      (e.applyControl pkt).1.nextReqId = e.nextReqId := by
  have htake : ∀ {reqId : UInt8} {pc : PendingConn} {rest : List PendingConn},
      takeReq reqId e.pendingExt = some (pc, rest) → rest.Sublist e.pendingExt := by
    intro reqId pc rest hfound
    obtain ⟨before, behind, hpending, rfl⟩ := takeReq_some hfound
    rw [hpending]
    exact List.Sublist.append_left (List.sublist_cons_self pc behind) before
  have hself : e.pendingExt.Sublist e.pendingExt ∧ e.nextReqId = e.nextReqId :=
    ⟨List.Sublist.refl _, rfl⟩
  unfold External.applyControl
  split_ifs
  · unfold External.handleConnectOk
    split
    · split
      · exact hself
      · rename_i hfound
        unfold External.emplace
        split_ifs
        · exact ⟨htake hfound, rfl⟩
        · exact ⟨htake hfound, rfl⟩
    · exact hself
  · unfold External.handleConnectFail
    split
    · split
      · exact hself
      · rename_i hfound
        exact ⟨htake hfound, rfl⟩
    · exact hself
  · exact hself

theorem Aging.step {targetAddr : Bytes} {e e' : External} {l : RequestStep} (h : Aging e)
    (hold : OldestGone e l) (hstep : requestStep targetAddr e l = some e') : Aging e' := by
  cases l with
  | accept cfd =>
      cases hstep
      unfold External.onListenerAccept
      dsimp only
      split_ifs with hfull
      · exact h.of_sublist (List.Sublist.refl _) rfl
      · exact h.concat (hold (Nat.not_le.mp hfull)) cfd
  | control pkt =>
      cases hstep
      obtain ⟨hsub, hnext⟩ := applyControl_sublist e pkt
      exact h.of_sublist hsub hnext
  | timeout =>
      obtain ⟨⟨t, sent⟩, htimeout, rfl⟩ := Option.map_eq_some_iff.mp hstep
      unfold External.pendingTimeout at htimeout
      split at htimeout
      · cases htimeout
      · rename_i front rest hpending
        cases htimeout
        refine h.of_sublist ?_ rfl
        rw [hpending]
        exact List.sublist_cons_self front rest

/-- A number that still waits is given out a second time. -/
theorem oldestGone_of_unambiguous {targetAddr : Bytes} {e : External} {l : RequestStep}
    (hnext : ∀ e', requestStep targetAddr e l = some e' → Unambiguous e') : OldestGone e l := by
  cases l with
  | accept cfd =>
      intro hroom front hfront heq
      have hdistinct := (hnext _ rfl).distinct
      unfold External.onListenerAccept at hdistinct
      dsimp only at hdistinct
      rw [if_neg (Nat.not_le.mpr hroom), External.reqIds, List.map_append,
        List.nodup_append] at hdistinct
      refine hdistinct.2.2 front.reqId ?_ e.nextReqId (by simp) heq
      exact List.mem_map_of_mem (List.mem_of_mem_head? hfront)
  | control pkt => trivial
  | timeout => trivial

/-- In a run from a client without waiting requests the ids that wait are different in every
state, and every reply selects the entry it is meant for, exactly when no connection is
accepted while the request made 256 requests before still waits. -/
theorem requests_unambiguous_iff (targetAddr : Bytes) {e : External} (hstart : e.pendingExt = [])
    (ls : List RequestStep) :
    (∀ ms e', ms <+: ls → run (requestStep targetAddr) e ms = some e' → Unambiguous e') ↔
      Meets (requestStep targetAddr) OldestGone e ls := by
  constructor
  · intro hall
    exact meets_of_reached (J := fun _ => True) (fun _ _ _ hnext => oldestGone_of_unambiguous hnext)
      (fun _ _ _ _ _ => trivial) trivial hall
  · intro hmeets ms e' hle hrun
    have hempty : Aging e := by
      rw [Aging, External.reqIds, hstart]
      exact List.Pairwise.nil
    have haging : Aging e' :=
      invariant_of_meets (fun _ _ _ h hold hstep => h.step hold hstep) hempty
        (hmeets.of_prefix hle) hrun
    exact haging.unambiguous

/-- Three requests, of which the second is answered first and the first never. -/
def threeRequests : List RequestStep :=
  [.accept 7, .accept 8, .control ⟨MSG_CONNECT_OK, [0, 1]⟩, .accept 9, .timeout,
    .control ⟨MSG_CONNECT_FAIL, [1, 2]⟩]

theorem requests_unambiguous_three :
    ∃ e, run (requestStep []) {} threeRequests = some e ∧ Unambiguous e := by
  obtain ⟨e, hrun⟩ : ∃ e, run (requestStep []) {} threeRequests = some e :=
    Option.isSome_iff_exists.mp (by decide)
  refine ⟨e, hrun, ?_⟩
  exact (requests_unambiguous_iff [] rfl threeRequests).mpr (by decide) threeRequests e
    (List.prefix_refl _) hrun

/-- The request of descriptor 7 is slow. 255 others are made and fail, and the next one, of
descriptor 300, gets the same id. -/
def burst : List RequestStep :=
  .accept 7 :: ((List.range 255).flatMap fun i =>
    [.accept (8 + i), .control ⟨MSG_CONNECT_FAIL, [0, UInt8.ofNat (i + 1)]⟩]) ++ [.accept 300]

/-- The reply to the younger request selects the connection of the older one. -/
theorem requests_ambiguous_burst :
    ∃ e, run (requestStep []) {} burst = some e ∧
      e.pendingExt = [⟨7, 0⟩, ⟨300, 0⟩] ∧ ¬ Unambiguous e ∧
      takeReq 0 e.pendingExt = some (⟨7, 0⟩, [⟨300, 0⟩]) := by
  have hpending : (run (requestStep []) {} burst).map External.pendingExt =
      some [⟨7, 0⟩, ⟨300, 0⟩] := by decide +kernel
  obtain ⟨e, hrun, he⟩ := Option.map_eq_some_iff.mp hpending
  refine ⟨e, hrun, he, fun hunambiguous => ?_, by rw [he]; rfl⟩
  have hdistinct := hunambiguous.distinct
  rw [External.reqIds, he] at hdistinct
  exact absurd hdistinct (by decide)

end PipelineTunnel.Client
