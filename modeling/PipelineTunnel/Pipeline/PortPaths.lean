import PipelineTunnel.Pipeline.Construction
import Mathlib.Data.List.Nodup

/-!
# What a port number means

Client and server build their chains independently and address each other's instances
by port number. The constructor numbers the ports in the iteration order of a map keyed
by heap addresses, so two builds of one list can differ.

## Implementation notes

`PathTo` reads the meaning of a port off the finished chain: the outputs to follow from
the entry. The labels of `Links` are exactly these paths, so it is enough to compare
labels.
-/

namespace PipelineTunnel.Pipeline

variable {σ : Type*} {create : Nat → Nat → Option (σ × Int)} {size : Nat} {c : Nat → Int}
  {lab : Nat → List Nat} {b : Build σ}

/-- Iterate with `a` first. -/
def startWith (a : Nat × Int) (r : Nat) (l : List (Nat × Int)) : List (Nat × Int) :=
  if r = 0 ∧ a ∈ l then a :: l.erase a else l

theorem isOrder_startWith (a : Nat × Int) : IsOrder (startWith a) := by
  intro r l
  rw [startWith]
  split
  · rename_i h
    exact (List.perm_cons_erase h.2).symm
  · exact List.Perm.refl l

/-- Every instance of module `i` gets the context `ctx` for its call and requests `c i`
outputs. -/
def requesting (ctx : Nat → Nat → σ) (c : Nat → Int) (n i : Nat) : Option (σ × Int) :=
  some (ctx n i, c i)

theorem requesting_requests (ctx : Nat → Nat → σ) (c : Nat → Int) :
    Requests (requesting ctx c) c := by
  intro n i ctx' count h
  exact (Prod.mk.inj (Option.some.inj h)).2.symm

variable {total : Nat} {order : Nat → List (Nat × Int) → List (Nat × Int)}

/-- A request of an instance that is not of the last module. -/
def Active (size : Nat) (lab : Nat → List Nat) (req : Nat × Int) : Prop :=
  (lab req.1).length + 1 < size

theorem serveRequest_inactive {req : Nat × Int} {rest : List (Nat × Int)}
    (h : Wired create size c total lab (req :: rest) [] 0 b) (hin : ¬Active size lab req) :
    serveRequest create size b req = .ok b := by
  obtain ⟨m, hm, -⟩ := h.served.waiting req.1 req.2 (by simp)
  have hlab := (h.links.cfg req.1 m hm).1
  rw [Active, ← hlab] at hin
  simp only [serveRequest, hm]
  rw [if_pos (by omega)]

/-- A round without active requests changes nothing. -/
theorem servePending_inactive {rest : List (Nat × Int)}
    (h : Wired create size c total lab rest [] 0 b) (hin : ∀ req ∈ rest, ¬Active size lab req) :
    rest.foldlM (serveRequest create size) b = .ok b ∧
      Wired create size c total lab [] [] 0 b := by
  induction rest with
  | nil => exact ⟨rfl, h⟩
  | cons req rest ih =>
      have hreq := hin req List.mem_cons_self
      rw [List.foldlM_cons, serveRequest_inactive h hreq]
      exact ih (h.skip hreq) fun r hr => hin r (List.mem_cons_of_mem _ hr)

/-- In a round with one active request only that one counts, wherever it stands. -/
theorem servePending_single (hreq : Requests create c) {rest : List (Nat × Int)}
    {req : Nat × Int} {b' : Build σ} (h : Wired create size c total lab rest [] 0 b)
    (hmem : req ∈ rest) (hone : ∀ r ∈ rest, Active size lab r → r = req)
    (hserve : serveRequest create size b req = .ok b') :
    rest.foldlM (serveRequest create size) b = .ok b' := by
  induction rest with
  | nil => cases hmem
  | cons r rest ih =>
      rw [List.foldlM_cons]
      by_cases heq : r = req
      · subst heq
        have hstep := h.serveRequest hreq
        rw [hserve] at hstep ⊢
        obtain ⟨lab', hgrow, hwired, -⟩ := hstep
        refine (servePending_inactive hwired ?_).1
        intro r' hr' hact
        rw [Active, hgrow.labels _ (h.served.key_lt (by simp [hr']))] at hact
        obtain rfl := hone r' (List.mem_cons_of_mem _ hr') hact
        exact (List.nodup_cons.mp h.served.nodup).1 (List.mem_map_of_mem (by simp [hr']))
      · have hin : ¬Active size lab r := fun hact => heq (hone r List.mem_cons_self hact)
        rw [serveRequest_inactive h hin]
        exact ih (h.skip hin) ((List.mem_cons.mp hmem).resolve_left (Ne.symm heq))
          fun r' hr' => hone r' (List.mem_cons_of_mem _ hr')

/-- Without active requests the rounds end at once, in every order. -/
theorem rounds_inactive (horder : IsOrder order) (fuel r : Nat)
    (h : Wired create size c total lab [] [] 0 b) (hin : ∀ req ∈ b.requested, ¬Active size lab req) :
    rounds create size order (fuel + 1) r b = .ok { b with requested := [] } := by
  rw [rounds]
  by_cases hnil : b.requested = []
  · rw [if_pos hnil, ← hnil]
  · have hround := servePending_inactive (h.startRound horder r)
      fun req hr => hin req ((horder r b.requested).mem_iff.mp hr)
    rw [if_neg hnil, hround.1]
    cases fuel with
    | zero => rfl
    | succ fuel =>
        change rounds create size order (fuel + 1) (r + 1) { b with requested := [] } = _
        rw [rounds, if_pos rfl]

/-- At most one module other than the last requests extra outputs. -/
def AtMostOne (c : Nat → Int) (size : Nat) : Prop :=
  ∀ i j, i + 1 < size → j + 1 < size → 1 ≤ c i → 1 ≤ c j → i = j

/-- The requests of an instance are those of its module. -/
theorem Wired.requested_count (h : Wired create size c total lab [] [] 0 b) {req : Nat × Int}
    (hr : req ∈ b.requested) : 1 ≤ c (lab req.1).length := by
  obtain ⟨m, hm, hcount, hpos, -⟩ := h.served.waiting req.1 req.2 hr
  rw [← (h.links.cfg req.1 m hm).1, ← hcount]
  exact hpos

/-- No `create_one` call for a module of the list fails. -/
def AllCreated (create : Nat → Nat → Option (σ × Int)) (size : Nat) : Prop :=
  ∀ n, ∀ i < size, (create n i).isSome

theorem AllCreated.not_failsWithin (h : AllCreated create size) (total : Nat) :
    ¬FailsWithin create size total := by
  rintro ⟨n, -, i, hi, hnone⟩
  have hsome := h n i hi
  rw [hnone] at hsome
  cases hsome

/-- With at most one requesting module the rounds do not depend on the order. -/
theorem rounds_linkMain_eq (hreq : Requests create c) (hall : AllCreated create size)
    (hone : AtMostOne c size) (hpos : 0 < size) (hm : Main create c size b) :
    ∃ b', ∀ order, IsOrder order →
      rounds create size order size 0 (linkMain b) = .ok b' := by
  obtain ⟨fuel, rfl⟩ := Nat.exists_eq_succ_of_ne_zero (Nat.pos_iff_ne_zero.mp hpos)
  have hw := linkMain_wired hm hpos
  by_cases hact : ∃ i, i + 1 < fuel + 1 ∧ 1 ≤ c i
  · obtain ⟨i, hi, hc⟩ := hact
    have hreqs : (linkMain b).requested = newRequests c 0 0 (fuel + 1) := hm.requested
    have hmem : (i, c i) ∈ (linkMain b).requested := by
      rw [hreqs]
      exact mem_newRequests.mpr ⟨i, by omega, by simp, by simp, by simpa using hc⟩
    have hsingle : ∀ r ∈ (linkMain b).requested,
        Active (fuel + 1) (fun i => List.replicate i 1) r → r = (i, c i) := by
      intro r hr hact
      have hc' := hw.requested_count hr
      rw [Active, List.length_replicate] at hact
      rw [List.length_replicate] at hc'
      have hri := hone r.1 i hact hi hc' hc
      rw [hreqs] at hr
      obtain ⟨u, -, hxu, hcu, -⟩ := mem_newRequests.mp hr
      rw [Nat.zero_add] at hxu hcu
      exact Prod.ext hri (by rw [hcu, ← hri, hxu])
    -- serve the active request first, to learn what it leaves behind
    have hstart := hw.startRound (isOrder_startWith (i, c i)) 0
    rw [startWith, if_pos ⟨rfl, hmem⟩] at hstart
    have hstep := hstart.serveRequest hreq
    cases hserve : serveRequest create (fuel + 1)
        { linkMain b with requested := [] } (i, c i) with
    | error e =>
        rw [hserve] at hstep
        exact absurd hstep (hall.not_failsWithin _)
    | ok b₁ =>
        rw [hserve] at hstep
        obtain ⟨lab₁, hgrow, hwired, hbelow, -⟩ := hstep
        have hrest : ∀ r ∈ (linkMain b).requested.erase (i, c i), ¬Active (fuel + 1) lab₁ r := by
          intro r hr hact
          rw [Active, hgrow.labels _ (hstart.served.key_lt (by simp [hr]))] at hact
          have heq := hsingle r (List.mem_of_mem_erase hr) hact
          have hnodup := hw.served.nodup
          rw [List.nil_append] at hnodup
          exact (List.Nodup.of_map Prod.fst hnodup).not_mem_erase (heq ▸ hr)
        have hquiet := (servePending_inactive hwired hrest).2
        have hin : ∀ r ∈ b₁.requested, ¬Active (fuel + 1) lab₁ r := by
          intro r hr hact
          have hdeep := (hbelow r hr).resolve_left (by simp)
          rw [List.length_replicate] at hdeep
          have := hone _ i hact hi (hquiet.requested_count hr) hc
          omega
        refine ⟨{ b₁ with requested := [] }, fun order horder => ?_⟩
        have hround : (order 0 (linkMain b).requested).foldlM
            (serveRequest create (fuel + 1)) { linkMain b with requested := [] } = .ok b₁ := by
          have hperm := horder 0 (linkMain b).requested
          exact servePending_single hreq (hw.startRound horder 0)
            (hperm.mem_iff.mpr hmem) (fun r hr => hsingle r (hperm.mem_iff.mp hr)) hserve
        obtain ⟨fuel, rfl⟩ := Nat.exists_eq_succ_of_ne_zero (show fuel ≠ 0 by omega)
        rw [rounds, if_neg (List.ne_nil_of_mem hmem), hround]
        exact rounds_inactive horder fuel 1 hquiet hin
  · refine ⟨{ linkMain b with requested := [] }, fun order horder => ?_⟩
    apply rounds_inactive horder fuel 0 hw
    intro r hr hact'
    have hc := hw.requested_count hr
    rw [Active, List.length_replicate] at hact'
    rw [List.length_replicate] at hc
    exact hact ⟨r.1, hact', hc⟩

/-- With at most one requesting module two builds of a list are the same chain. -/
theorem construct_eq_of_atMostOne (hreq : Requests create c) (hall : AllCreated create size)
    (hone : AtMostOne c size) {order order' : Nat → List (Nat × Int) → List (Nat × Int)}
    (horder : IsOrder order) (horder' : IsOrder order') :
    construct create size order = construct create size order' := by
  rcases Nat.eq_zero_or_pos size with rfl | hpos
  · rfl
  · have hmain := mainChain_spec size hreq
    simp only [construct]
    cases hrun : mainChain create size with
    | error e => rfl
    | ok b =>
        rw [hrun] at hmain
        obtain ⟨b', hb'⟩ := rounds_linkMain_eq hreq hall hone hpos hmain
        simp only [hb' order horder, hb' order' horder']

end PipelineTunnel.Pipeline
