import PipelineTunnel.Pipeline.PortPaths
import PipelineTunnel.Pipeline.Routes
import Mathlib.Algebra.BigOperators.Intervals
import Mathlib.Data.Finset.Card

/-!
# The shape of a finished chain

The instances of a chain form a tree below the first one: the forward links of an
instance lead to copies of the next module, and the instances of the last module are the
entry points of the ports. The number of ports is therefore a product, one factor for each
module but the last one.
-/

namespace PipelineTunnel.Pipeline

open Finset

variable {σ : Type*} {create : Nat → Nat → Option (σ × Int)} {size : Nat} {c : Nat → Int}
  {order : Nat → List (Nat × Int) → List (Nat × Int)} {lab : Nat → List Nat} {b : Build σ}

/-- `total_extra_outputs`. -/
def Chain.totalExtraOutputs (ch : Chain σ) : Nat :=
  if ch.wireEntries.length < 2 then 0 else ch.wireEntries.length - 2

/-- The instances visited from `x` on by following `near[0]`, at most `fuel` times. -/
def Chain.upstream (ch : Chain σ) : Nat → Nat → List Nat
  | 0, x => [x]
  | fuel + 1, x =>
      match ch.modules[x]?.bind fun m => m.near[0]? with
      | some (some q) => x :: ch.upstream fuel q
      | _ => [x]

/-! ## Counting -/

/-- The instances of module `i`. -/
def level (b : Build σ) (i : Nat) : Finset Nat :=
  (range b.modules.length).filter fun x => b.finish.cfg x = some i

theorem mem_level {i x : Nat} : x ∈ level b i ↔ ∃ m, b.modules[x]? = some m ∧ m.cfgIdx = i := by
  rw [level, mem_filter, cfg_finish, mem_range]
  constructor
  · exact And.right
  · rintro ⟨m, hm, hcfg⟩
    exact ⟨(List.getElem?_eq_some_iff.mp hm).1, m, hm, hcfg⟩

/-- The instance behind output `out` of `x`. -/
def child (b : Build σ) (x out : Nat) : Nat :=
  ((b.modules[x]?.bind fun m => m.near[out]?).join).getD 0

theorem child_eq {x out q : Nat} {m : Module σ} (hm : b.modules[x]? = some m)
    (hq : m.near[out]? = some (some q)) : child b x out = q := by
  simp [child, hm, hq]

theorem Built.child_spec (h : Built create size c lab b) {i x out : Nat} (hi : i + 1 < size)
    (hx : x ∈ level b i) (hlo : 1 ≤ out) (hhi : out ≤ 1 + (c i).toNat) :
    child b x out ∈ level b (i + 1) ∧ lab (child b x out) = out :: lab x ∧
      ∃ m, b.modules[child b x out]? = some m ∧ m.near[0]? = some (some x) := by
  obtain ⟨m, hm, rfl⟩ := mem_level.mp hx
  obtain ⟨q, hq⟩ := (h.served.done x m hm hi (by simp) (by simp)).2 out hlo hhi
  obtain ⟨hlab, mq, hmq, hup⟩ := h.links.down x m out q hm hlo hq
  rw [child_eq hm hq]
  refine ⟨mem_level.mpr ⟨mq, hmq, ?_⟩, hlab, mq, hmq, hup⟩
  rw [(h.links.cfg q mq hmq).1, hlab, List.length_cons, (h.links.cfg x m hm).1]

/-- Every instance of a module has a copy of the next one behind each output. -/
theorem Built.card_level_succ (h : Built create size c lab b) {i : Nat} (hi : i + 1 < size) :
    (level b (i + 1)).card = (level b i).card * (1 + (c i).toNat) := by
  have hcard : (level b i ×ˢ Icc 1 (1 + (c i).toNat)).card =
      (level b i).card * (1 + (c i).toNat) := by
    rw [card_product, Nat.card_Icc, Nat.add_sub_cancel]
  rw [← hcard]
  symm
  apply card_bij (fun e _ => child b e.1 e.2)
  · rintro ⟨x, out⟩ hmem
    obtain ⟨hx, hout⟩ := mem_product.mp hmem
    obtain ⟨hlo, hhi⟩ := mem_Icc.mp hout
    exact (h.child_spec hi hx hlo hhi).1
  · rintro ⟨x, out⟩ hmem ⟨y, out'⟩ hmem' heq
    obtain ⟨hx, hout⟩ := mem_product.mp hmem
    obtain ⟨hlo, hhi⟩ := mem_Icc.mp hout
    obtain ⟨hy, hout'⟩ := mem_product.mp hmem'
    obtain ⟨hlo', hhi'⟩ := mem_Icc.mp hout'
    obtain ⟨-, hlab, m, hm, hup⟩ := h.child_spec hi hx hlo hhi
    obtain ⟨-, hlab', m', hm', hup'⟩ := h.child_spec hi hy hlo' hhi'
    simp only at heq
    rw [heq] at hlab hm
    obtain rfl := Option.some.inj (hm.symm.trans hm')
    obtain rfl := Option.some.inj (Option.some.inj (hup.symm.trans hup'))
    obtain rfl := (List.cons.inj (hlab.symm.trans hlab')).1
    rfl
  · intro q hq
    obtain ⟨m, hm, hcfg⟩ := mem_level.mp hq
    obtain ⟨x, mx, out, -, hmx, hlo, hnear, hlab⟩ := h.links.up q m hm (by omega)
    have hcfgx : mx.cfgIdx = i := by
      have hlen := (h.links.cfg q m hm).1
      rw [hlab, List.length_cons, ← (h.links.cfg x mx hmx).1] at hlen
      omega
    have hlen := (h.served.done x mx hmx (by omega) (by simp) (by simp)).1
    have hout := (List.getElem?_eq_some_iff.mp hnear).1
    rw [hlen, hcfgx] at hout
    refine ⟨(x, out), ?_, child_eq hmx hnear⟩
    rw [mem_product]
    exact ⟨mem_level.mpr ⟨mx, hmx, hcfgx⟩, mem_Icc.mpr ⟨hlo, by omega⟩⟩

theorem Built.card_level (h : Built create size c lab b) : ∀ i < size,
    (level b i).card = ∏ j ∈ range i, (1 + (c j).toNat) := by
  intro i
  induction i with
  | zero =>
      intro _
      rw [range_zero, prod_empty, card_eq_one]
      refine ⟨0, ?_⟩
      ext x
      rw [mem_level, mem_singleton]
      constructor
      · rintro ⟨m, hm, hcfg⟩
        exact (h.links.root x m hm hcfg).1
      · rintro rfl
        exact h.links.base
  | succ i ih =>
      intro hi
      rw [h.card_level_succ hi, ih (by omega), prod_range_succ]

/-- Every instance of the last module has a port of its own. -/
theorem Built.card_ports (h : Built create size c lab b) (hpos : 0 < size) :
    b.wireEntries.length - 1 = (level b (size - 1)).card := by
  have hcard : (Ico 1 b.wireEntries.length).card = b.wireEntries.length - 1 := Nat.card_Ico _ _
  rw [← hcard]
  apply card_bij (fun p _ => (b.wireEntries[p]?.join).getD 0)
  · intro p hp
    obtain ⟨hlo, hhi⟩ := mem_Ico.mp hp
    rw [h.ports.length] at hhi
    obtain ⟨x, m, hx, hm, hcfg, -⟩ := h.ports.entry p hlo hhi
    simp only [hx, Option.join_some, Option.getD_some]
    exact mem_level.mpr ⟨m, hm, by omega⟩
  · intro p hp q hq heq
    obtain ⟨hlo, hhi⟩ := mem_Ico.mp hp
    obtain ⟨hlo', hhi'⟩ := mem_Ico.mp hq
    rw [h.ports.length] at hhi hhi'
    obtain ⟨x, m, hx, hm, -, hdst⟩ := h.ports.entry p hlo hhi
    obtain ⟨y, m', hy, hm', -, hdst'⟩ := h.ports.entry q hlo' hhi'
    simp only [hx, hy, Option.join_some, Option.getD_some] at heq
    subst heq
    obtain rfl := Option.some.inj (hm.symm.trans hm')
    omega
  · intro x hx
    obtain ⟨m, hm, hcfg⟩ := mem_level.mp hx
    obtain ⟨-, -, p, hlo, -, hentry⟩ := h.ports.last x m hm (by omega)
    refine ⟨p, mem_Ico.mpr ⟨hlo, (List.getElem?_eq_some_iff.mp hentry).1⟩, ?_⟩
    simp [hentry]

/-! ## The way back -/

/-- Following `near[0]` leads through the modules of the list one by one to the entry. -/
theorem Built.upstream (h : Built create size c lab b) : ∀ (i x fuel : Nat),
    b.finish.cfg x = some i → i ≤ fuel →
    (b.finish.upstream fuel x).map b.finish.cfg = (List.range (i + 1)).reverse.map some ∧
      (b.finish.upstream fuel x).getLast? = b.finish.entryExt := by
  intro i
  induction i with
  | zero =>
      intro x fuel hx _
      obtain ⟨m, hm, hcfg⟩ := cfg_finish.mp hx
      obtain ⟨rfl, hnear⟩ := h.links.root x m hm hcfg
      have hstop : b.finish.upstream fuel 0 = [0] := by
        have hmod : b.finish.modules[0]? = some m := hm
        cases fuel with
        | zero => rfl
        | succ fuel => simp [Chain.upstream, hmod, hnear]
      rw [hstop, List.map_singleton, hx]
      exact ⟨rfl, rfl⟩
  | succ i ih =>
      intro x fuel hx hfuel
      obtain ⟨fuel, rfl⟩ : ∃ n, fuel = n + 1 := ⟨fuel - 1, by omega⟩
      obtain ⟨m, hm, hcfg⟩ := cfg_finish.mp hx
      obtain ⟨q, mq, out, hnear, hmq, -, -, hlab⟩ := h.links.up x m hm (by omega)
      have hcfgq : mq.cfgIdx = i := by
        have hlen := (h.links.cfg x m hm).1
        rw [hlab, List.length_cons, ← (h.links.cfg q mq hmq).1] at hlen
        omega
      obtain ⟨hpath, hlast⟩ := ih q fuel (cfg_finish.mpr ⟨mq, hmq, hcfgq⟩) (by omega)
      have hmod : b.finish.modules[x]? = some m := hm
      have hgo : b.finish.upstream (fuel + 1) x = x :: b.finish.upstream fuel q := by
        simp [Chain.upstream, hmod, hnear]
      rw [hgo]
      constructor
      · rw [List.map_cons, hx, hpath, List.range_succ (n := i + 1), List.reverse_concat,
          List.map_cons]
      · rw [List.getLast?_cons, hlast]
        rfl

/-! ## The topology -/

/-- What the constructor promises about a chain of `size` modules in which every instance
of module `i` has `c i` extra outputs. -/
structure Topology (c : Nat → Nat) (size : Nat) (ch : Chain σ) : Prop where
  count : 1 + ch.totalExtraOutputs = ∏ i ∈ range (size - 1), (1 + c i)
  ports : ∀ p : Nat, 1 ≤ p → p < ch.wireEntries.length → ∃ x m,
    ch.wireEntries[p]? = some (some x) ∧ ch.modules[x]? = some m ∧ m.wireDst = (p : Int) ∧
      m.cfgIdx + 1 = size ∧ m.near[1]? = some none
  distinct : ∀ (p q : Nat) x, ch.wireEntries[p]? = some (some x) →
    ch.wireEntries[q]? = some (some x) → p = q
  back : ∀ (p : Nat) x, ch.wireEntries[p]? = some (some x) → ∀ fuel, size ≤ fuel + 1 →
    (ch.upstream fuel x).map ch.cfg = (List.range size).reverse.map some ∧
      (ch.upstream fuel x).getLast? = ch.entryExt
  linked : ∀ (x : Nat) m (j y : Nat), ch.modules[x]? = some m → 1 ≤ j →
    m.near[j]? = some (some y) → ∃ m', ch.modules[y]? = some m' ∧ m'.near[0]? = some (some x)
  outputs : ∀ (x : Nat) m, ch.modules[x]? = some m → m.cfgIdx + 1 < size →
    (m.near.drop 1).countP Option.isSome = 1 + c m.cfgIdx

theorem Built.entry_spec (h : Built create size c lab b) {p x : Nat}
    (hp : b.wireEntries[p]? = some (some x)) :
    ∃ m, b.modules[x]? = some m ∧ m.cfgIdx + 1 = size ∧ m.wireDst = (p : Int) := by
  have hlt := (List.getElem?_eq_some_iff.mp hp).1
  rcases Nat.eq_zero_or_pos p with rfl | hpos
  · rw [h.ports.zero] at hp
    cases hp
  · rw [h.ports.length] at hlt
    obtain ⟨y, m, hy, hm, hcfg, hdst⟩ := h.ports.entry p hpos hlt
    obtain rfl := Option.some.inj (Option.some.inj (hy.symm.trans hp))
    exact ⟨m, hm, hcfg, hdst⟩

/-- All forward links of an instance are in use. -/
theorem countP_connected {m : Module σ} {n : Nat} (hlen : m.near.length = 2 + n)
    (hconn : Connected m (1 + n)) : (m.near.drop 1).countP Option.isSome = 1 + n := by
  have hall : (m.near.drop 1).countP Option.isSome = (m.near.drop 1).length := by
    rw [List.countP_eq_length]
    intro q hq
    obtain ⟨i, hi⟩ := List.mem_iff_getElem?.mp hq
    rw [List.getElem?_drop] at hi
    have hlt := (List.getElem?_eq_some_iff.mp hi).1
    obtain ⟨y, hy⟩ := hconn (1 + i) (by omega) (by omega)
    rw [hy] at hi
    obtain rfl := Option.some.inj hi
    rfl
  rw [hall, List.length_drop]
  omega

theorem Built.topology {c : Nat → Nat} (h : Built create size (fun i => (c i : Int)) lab b)
    (hpos : 0 < size) : Topology c size b.finish := by
  constructor
  case count =>
    have hports := h.card_ports hpos
    have hlevel := h.card_level (size - 1) (by omega)
    simp only [Int.toNat_natCast] at hlevel
    rw [← hlevel, ← hports]
    change 1 + (if b.wireEntries.length < 2 then 0 else b.wireEntries.length - 2) = _
    have htwo : 2 ≤ b.wireEntries.length := by
      obtain ⟨m, hm, hcfg⟩ := cfg_finish.mp (show b.finish.cfg (size - 1) = some (size - 1) by
        obtain ⟨hlen, hlab⟩ := h.mainLab (size - 1) (by omega)
        refine cfg_finish.mpr ⟨_, List.getElem?_eq_getElem hlen, ?_⟩
        rw [(h.links.cfg _ _ (List.getElem?_eq_getElem hlen)).1, hlab, List.length_replicate])
      obtain ⟨-, -, p, hlo, -, hentry⟩ := h.ports.last _ m hm (by omega)
      have := (List.getElem?_eq_some_iff.mp hentry).1
      omega
    rw [if_neg (by omega)]
    omega
  case ports =>
    intro p hlo hhi
    change p < b.wireEntries.length at hhi
    rw [h.ports.length] at hhi
    obtain ⟨x, m, hx, hm, hcfg, hdst⟩ := h.ports.entry p hlo hhi
    exact ⟨x, m, hx, hm, hdst, hcfg, (h.ports.last x m hm hcfg).2.1⟩
  case distinct =>
    intro p q x hp hq
    obtain ⟨m, hm, -, hdst⟩ := h.entry_spec hp
    obtain ⟨m', hm', -, hdst'⟩ := h.entry_spec hq
    obtain rfl := Option.some.inj (hm.symm.trans hm')
    omega
  case back =>
    intro p x hp fuel hfuel
    obtain ⟨m, hm, hcfg, -⟩ := h.entry_spec hp
    have hback := h.upstream (size - 1) x fuel (cfg_finish.mpr ⟨m, hm, by omega⟩) (by omega)
    rw [Nat.sub_add_cancel hpos] at hback
    exact hback
  case linked =>
    intro x m j y hx hj hy
    exact (h.links.down x m j y hx hj hy).2
  case outputs =>
    intro x m hx hcfg
    obtain ⟨hlen, hconn⟩ := h.served.done x m hx hcfg (by simp) (by simp)
    rw [Int.toNat_natCast] at hlen hconn
    exact countP_connected hlen hconn

/-! ## Termination -/

theorem rounds_mono {fuel r : Nat} {b b' : Build σ} (hrun : rounds create size order fuel r b = .ok b')
    (hdone : b'.requested = []) (k : Nat) : rounds create size order (fuel + k) r b = .ok b' := by
  induction fuel generalizing r b with
  | zero =>
      obtain rfl := Except.ok.inj hrun
      cases k with
      | zero => rfl
      | succ k => rw [Nat.zero_add, rounds, if_pos hdone]
  | succ fuel ih =>
      rw [rounds] at hrun
      rw [Nat.succ_add, rounds]
      by_cases hnil : b.requested = []
      · rw [if_pos hnil] at hrun ⊢
        exact hrun
      · rw [if_neg hnil] at hrun ⊢
        cases hserve : (order r b.requested).foldlM (serveRequest create size)
            { b with requested := [] } with
        | error e => simp [hserve] at hrun
        | ok b₁ =>
            simp only [hserve] at hrun ⊢
            exact ih hrun

/-- However many rounds are allowed beyond one for each module, phase 2 ends by itself
in the same state. -/
def PhaseTwoEnds (create : Nat → Nat → Option (σ × Int)) (size : Nat)
    (order : Nat → List (Nat × Int) → List (Nat × Int)) : Prop :=
  ∃ main b, mainChain create size = .ok main ∧ b.requested = [] ∧
    construct create size order = b.finish ∧
    ∀ fuel ≥ size, rounds create size order fuel 0 (linkMain main) = .ok b

theorem phaseTwoEnds (hreq : Requests create c) (hall : AllCreated create size)
    (horder : IsOrder order) (hpos : 0 < size) : PhaseTwoEnds create size order := by
  have hmain := mainChain_spec size hreq
  cases hrun : mainChain create size with
  | error e =>
      rw [hrun] at hmain
      obtain ⟨n, hn, hnone⟩ := hmain
      have hsome := hall n n hn
      rw [hnone] at hsome
      cases hsome
  | ok main =>
      rw [hrun] at hmain
      have hm : Main create c size main := hmain
      have hne : ¬main.modules = [] := by
        rw [← List.length_eq_zero_iff, hm.length]
        omega
      have hrounds := Wired.rounds hreq horder size (r := 0) (linkMain_wired hm hpos)
        (fun _ _ => Nat.zero_le _) (by omega)
      cases hphase : rounds create size order size 0 (linkMain main) with
      | error e =>
          rw [hphase] at hrounds
          exact absurd hrounds (hall.not_failsWithin _)
      | ok b =>
          rw [hphase] at hrounds
          obtain ⟨lab, -, -, hdone, -⟩ := hrounds
          refine ⟨main, b, hrun, hdone, ?_, ?_⟩
          · simp only [construct, hrun, if_neg hne, hphase]
          · intro fuel hfuel
            have hmono := rounds_mono hphase hdone (fuel - size)
            rwa [Nat.add_sub_cancel' hfuel] at hmono

/-- The constructor ends with a well-formed chain, for every number of extra outputs of
each module and every iteration order of the requests. -/
theorem construct_topology {c : Nat → Nat} (hreq : Requests create fun i => (c i : Int))
    (hall : AllCreated create size) (horder : IsOrder order) (hpos : 0 < size) :
    PhaseTwoEnds create size order ∧ Topology c size (construct create size order) := by
  refine ⟨phaseTwoEnds hreq hall horder hpos, ?_⟩
  rcases construct_spec hreq horder hpos with ⟨lab, b, heq, hbuilt, -⟩ | ⟨-, hfail⟩
  · rw [heq]
    exact hbuilt.topology hpos
  · exact absurd hfail (hall.not_failsWithin _)

/-- Two splits in a row, each with one extra output, and a third module: four ports. -/
theorem construct_topology_two_splits :
    let c : Nat → Nat := fun i => if i < 2 then 1 else 0
    PhaseTwoEnds (requesting (fun _ _ => ()) fun i => (c i : Int)) 3 (fun _ l => l) ∧
      Topology c 3 (construct (requesting (fun _ _ => ()) fun i => (c i : Int)) 3 fun _ l => l) ∧
      (construct (requesting (fun _ _ => ()) fun i => (c i : Int)) 3
        fun _ l => l).wireEntries.length = 5 := by
  intro c
  have htop := construct_topology (requesting_requests (fun _ _ => ()) fun i => (c i : Int))
    (fun _ _ _ => rfl) (fun _ _ => List.Perm.refl _) (show 0 < 3 by decide)
  exact ⟨htop.1, htop.2, by decide⟩

end PipelineTunnel.Pipeline
