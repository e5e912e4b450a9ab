import PipelineTunnel.Pipeline.Model
import Mathlib.Algebra.BigOperators.Group.List.Basic

/-!
# How the constructor wires the instances

One round of the loop over `k` attaches a copy of the modules behind `mod`: `Attached`
says what that does to the build, and the invariants of the finished chain are kept by
it. `lab` labels every instance with the outputs followed from the entry to it, the
last one first.

## Implementation notes

While a copy is under construction its last instance has neither a successor nor a
port, so the invariants are stated between two rounds of the loop over `k` only, and
`Grown` describes the build inside a round.
-/

namespace PipelineTunnel.Pipeline

variable {σ : Type*} {create : Nat → Nat → Option (σ × Int)} {size : Nat} {c : Nat → Int}

/-- The counts that `init` requests depend on the place in the module list only. -/
def Requests (create : Nat → Nat → Option (σ × Int)) (c : Nat → Int) : Prop :=
  ∀ n i ctx count, create n i = some (ctx, count) → count = c i

theorem addModule_ok {b b' : Build σ} {i : Nat} (hreq : Requests create c)
    (h : addModule create b i = .ok b') :
    ∃ ctx, create b.calls i = some (ctx, c i) ∧
      b' = { b with
        modules := b.modules ++ [{ cfgIdx := i, ctx := ctx }]
        requested := requestOutputs b.requested b.modules.length (c i)
        calls := b.calls + 1 } := by
  simp only [addModule] at h
  cases hc : create b.calls i with
  | none => simp [hc] at h
  | some r =>
      obtain ⟨ctx, count⟩ := r
      obtain rfl := hreq _ _ _ _ hc
      simp only [hc] at h
      exact ⟨ctx, rfl, (Except.ok.inj h).symm⟩

theorem addModule_error {b b' : Build σ} {i : Nat} (h : addModule create b i = .error b') :
    create b.calls i = none := by
  simp only [addModule] at h
  cases hc : create b.calls i with
  | none => rfl
  | some r => simp [hc] at h

/-! ## One copy -/

/-- The requests of `t` new instances of consecutive modules. -/
def newRequests (c : Nat → Int) (n j t : Nat) : List (Nat × Int) :=
  (List.range t).flatMap fun u => requestOutputs [] (n + u) (c (j + u))

theorem newRequests_succ (c : Nat → Int) (n j t : Nat) :
    newRequests c n j (t + 1) = newRequests c n j t ++ requestOutputs [] (n + t) (c (j + t)) := by
  rw [newRequests, List.range_succ, List.flatMap_append, List.flatMap_singleton]
  rfl

theorem requestOutputs_append (l : List (Nat × Int)) (x : Nat) (count : Int) :
    requestOutputs l x count = l ++ requestOutputs [] x count := by
  rw [requestOutputs, requestOutputs]
  split <;> simp

theorem mem_newRequests {c : Nat → Int} {n j t x : Nat} {count : Int} :
    (x, count) ∈ newRequests c n j t ↔
      ∃ u < t, x = n + u ∧ count = c (j + u) ∧ 1 ≤ c (j + u) := by
  simp only [newRequests, List.mem_flatMap, List.mem_range, requestOutputs]
  constructor
  · rintro ⟨u, hu, hmem⟩
    split at hmem
    · simp at hmem
    · rename_i hc
      obtain ⟨rfl, rfl⟩ := Prod.mk.injEq .. ▸ List.mem_singleton.mp hmem
      exact ⟨u, hu, rfl, rfl, by omega⟩
  · rintro ⟨u, hu, rfl, rfl, hc⟩
    refine ⟨u, hu, ?_⟩
    rw [if_neg (by omega)]
    simp

theorem nodup_newRequests (c : Nat → Int) (n j t : Nat) :
    ((newRequests c n j t).map Prod.fst).Nodup := by
  induction t with
  | zero => simp [newRequests]
  | succ t ih =>
      rw [newRequests_succ, List.map_append, List.nodup_append]
      refine ⟨ih, ?_, ?_⟩
      · rw [requestOutputs]
        split <;> simp
      · intro x hx y hy
        obtain ⟨⟨x', count⟩, hmem, rfl⟩ := List.mem_map.mp hx
        obtain ⟨u, hu, hxu, -⟩ := mem_newRequests.mp hmem
        rw [requestOutputs] at hy
        split at hy
        · simp at hy
        · simp only [List.nil_append, List.map_cons, List.map_nil, List.mem_singleton] at hy
          omega

/-- The instance before the one that round `t` of the loop over `ri` creates. -/
def prevOf (n mod t : Nat) : Nat := if t = 0 then mod else n + t - 1

/-- The build after `t` rounds of the loop over `ri` for a copy behind `mod`. -/
structure Grown (create : Nat → Nat → Option (σ × Int)) (c : Nat → Int) (b₀ : Build σ)
    (mod j t : Nat) (b : Build σ) : Prop where
  length : b.modules.length = b₀.modules.length + t
  old : ∀ y < b₀.modules.length, b.modules[y]? = b₀.modules[y]?
  new : ∀ u < t, ∃ ctx, b.modules[b₀.modules.length + u]? = some
    { cfgIdx := j + u
      near := [some (prevOf b₀.modules.length mod u),
        if u + 1 < t then some (b₀.modules.length + u + 1) else none]
      wireDst := -1
      ctx := ctx }
  requested : b.requested = b₀.requested ++ newRequests c b₀.modules.length j t
  wireEntries : b.wireEntries = b₀.wireEntries
  nextPort : b.nextPort = b₀.nextPort
  calls : b.calls = b₀.calls + t
  created : ∀ u < t, (create (b₀.calls + u) (j + u)).isSome

theorem Grown.init (b₀ : Build σ) (mod j : Nat) : Grown create c b₀ mod j 0 b₀ where
  length := rfl
  old := fun _ _ => rfl
  new := by simp
  requested := by simp [newRequests]
  wireEntries := rfl
  nextPort := rfl
  calls := rfl
  created := by simp

theorem Build.setNear_of_ne (b : Build σ) {x y : Nat} (pos : Nat) (q : Option Nat) (h : y ≠ x) :
    (b.setNear x pos q).modules[y]? = b.modules[y]? :=
  List.getElem?_modify_ne _ _ (Ne.symm h)

theorem Build.setNear_self (b : Build σ) {x : Nat} (pos : Nat) (q : Option Nat) {m : Module σ}
    (h : b.modules[x]? = some m) :
    (b.setNear x pos q).modules[x]? = some { m with near := m.near.set pos q } := by
  rw [Build.setNear, List.getElem?_modify_eq, h]
  rfl

@[simp] theorem Build.length_setNear (b : Build σ) (x pos : Nat) (q : Option Nat) :
    (b.setNear x pos q).modules.length = b.modules.length :=
  List.length_modify _ _ _

/-- One round of the loop over `ri` makes the copy longer by one instance. -/
theorem Grown.step {b₀ b b' : Build σ} {mod j t : Nat} (hreq : Requests create c)
    (hmod : mod < b₀.modules.length) (h : Grown create c b₀ mod j t b)
    (hadd : addModule create b (j + t) = .ok b') :
    Grown create c b₀ mod j (t + 1)
      (b'.linkSub mod (prevOf b₀.modules.length mod t) b.modules.length) := by
  obtain ⟨ctx, hcreate, rfl⟩ := addModule_ok hreq hadd
  have hmp := h.length
  rw [Build.linkSub]
  generalize hprev : prevOf b₀.modules.length mod t = prev
  -- the build with the new instance linked backwards only
  generalize hb₁ : Build.setNear _ b.modules.length 0 (some prev) = b₁
  generalize hmp' : b.modules.length = mp at *
  have hold : ∀ y < mp, b₁.modules[y]? = b.modules[y]? := by
    intro y hy
    rw [← hb₁, Build.setNear_of_ne _ _ _ (by omega), List.getElem?_append_left (hmp'.symm ▸ hy)]
  have hnew : b₁.modules[mp]? = some
      { cfgIdx := j + t, near := [some prev, none], wireDst := -1, ctx := ctx } := by
    have hlast : (b.modules ++ [({ cfgIdx := j + t, ctx := ctx } : Module σ)])[mp]? = some
        { cfgIdx := j + t, ctx := ctx } := hmp' ▸ List.getElem?_concat_length
    rw [← hb₁, Build.setNear, List.getElem?_modify_eq, hlast]
    rfl
  have hlen₁ : b₁.modules.length = mp + 1 := by
    rw [← hb₁, Build.length_setNear, List.length_append, List.length_singleton, hmp']
  have hfields : b₁.requested = b₀.requested ++ newRequests c b₀.modules.length j (t + 1) ∧
      b₁.wireEntries = b₀.wireEntries ∧ b₁.nextPort = b₀.nextPort ∧
      b₁.calls = b₀.calls + (t + 1) := by
    rw [← hb₁, newRequests_succ, ← List.append_assoc, ← h.requested, ← hmp,
      ← requestOutputs_append, ← Nat.add_assoc, ← h.calls]
    exact ⟨rfl, h.wireEntries, h.nextPort, rfl⟩
  have hcreated : ∀ u < t + 1, (create (b₀.calls + u) (j + u)).isSome := by
    intro u hu
    rcases Nat.lt_succ_iff_lt_or_eq.mp hu with hu | rfl
    · exact h.created u hu
    · rw [← h.calls, hcreate]
      rfl
  obtain ⟨hreqs, hwire, hport, hcalls⟩ := hfields
  by_cases ht : t = 0
  · subst ht
    obtain rfl : mod = prev := hprev
    rw [if_neg (not_not_intro rfl)]
    refine ⟨by omega, ?_, ?_, hreqs, hwire, hport, hcalls, hcreated⟩
    · intro y hy
      rw [hold y (by omega), h.old y hy]
    · intro u hu
      obtain rfl : u = 0 := by omega
      exact ⟨ctx, by rw [← hmp, hnew]; rfl⟩
  · rw [prevOf, if_neg ht] at hprev
    rw [if_pos (by omega)]
    refine ⟨by rw [Build.length_setNear]; omega, ?_, ?_, hreqs, hwire, hport, hcalls, hcreated⟩
    · intro y hy
      rw [Build.setNear_of_ne _ _ _ (by omega), hold y (by omega), h.old y hy]
    · intro u hu
      rcases Nat.lt_succ_iff_lt_or_eq.mp hu with hu | rfl
      · obtain ⟨ctx', hu'⟩ := h.new u hu
        refine ⟨ctx', ?_⟩
        rw [if_pos (by omega)]
        by_cases hlast : u + 1 < t
        · rw [Build.setNear_of_ne _ _ _ (by omega), hold _ (by omega), hu', if_pos hlast]
        · have hup : b₀.modules.length + u = prev := by omega
          rw [if_neg hlast] at hu'
          rw [hup, Build.setNear_self b₁ 1 (some mp) (by rw [hold prev (by omega), ← hup, hu'])]
          have hmp'' : mp = b₀.modules.length + u + 1 := by omega
          rw [hmp'', ← hup]
          rfl
      · refine ⟨ctx, ?_⟩
        rw [if_neg (by omega), ← hmp, Build.setNear_of_ne _ _ _ (by omega), hnew]
        rw [prevOf, if_neg ht, hprev]

/-- The loop over `ri` ends with the whole copy, or at a `create_one` call of it that
failed. -/
theorem subLoop_spec {b₀ : Build σ} {mod j : Nat} (hreq : Requests create c)
    (hmod : mod < b₀.modules.length) (d : Nat) : ∀ {t : Nat} {b : Build σ},
    Grown create c b₀ mod j t b →
    match subLoop create mod (List.range' (j + t) d) (prevOf b₀.modules.length mod t)
      (if t = 0 then none else some b₀.modules.length) b with
    | .ok (b', last, first) => Grown create c b₀ mod j (t + d) b' ∧
        last = prevOf b₀.modules.length mod (t + d) ∧
        first = if t + d = 0 then none else some b₀.modules.length
    | .error _ => ∃ u < t + d, create (b₀.calls + u) (j + u) = none := by
  induction d with
  | zero =>
      intro t b h
      exact ⟨h, rfl, rfl⟩
  | succ d ih =>
      intro t b h
      rw [List.range'_succ]
      simp only [subLoop]
      cases hadd : addModule create b (j + t) with
      | error b' =>
          refine ⟨t, by omega, ?_⟩
          rw [← h.calls]
          exact addModule_error hadd
      | ok b' =>
          have hstep := ih (h.step hreq hmod hadd)
          have hfirst : (if (if t = 0 then none else some b₀.modules.length : Option Nat).isNone
              then some b.modules.length else if t = 0 then none else some b₀.modules.length) =
              if t + 1 = 0 then none else some b₀.modules.length := by
            rw [if_neg (Nat.succ_ne_zero t)]
            by_cases ht : t = 0
            · rw [if_pos ht, h.length, ht]
              rfl
            · rw [if_neg ht]
              rfl
          have hprev : prevOf b₀.modules.length mod (t + 1) = b.modules.length := by
            rw [h.length]
            rfl
          rw [← hfirst, hprev, Nat.add_right_comm t 1 d] at hstep
          exact hstep

/-- The build `b'` is `b` with a copy of `d` modules from index `j` on attached to
output `k` of `mod`. -/
structure Attached (create : Nat → Nat → Option (σ × Int)) (c : Nat → Int) (mod j d k : Nat)
    (b b' : Build σ) : Prop where
  length : b'.modules.length = b.modules.length + d
  old : ∀ y < b.modules.length, y ≠ mod → b'.modules[y]? = b.modules[y]?
  parent : ∀ m, b.modules[mod]? = some m →
    b'.modules[mod]? = some { m with near := m.near.set k (some b.modules.length) }
  new : ∀ u < d, ∃ ctx, b'.modules[b.modules.length + u]? = some
    { cfgIdx := j + u
      near := [some (prevOf b.modules.length mod u),
        if u + 1 < d then some (b.modules.length + u + 1) else none]
      wireDst := if u + 1 = d then (b.nextPort : Int) else -1
      ctx := ctx }
  requested : b'.requested = b.requested ++ newRequests c b.modules.length j d
  wireEntries : b'.wireEntries = b.wireEntries ++ [some (b.modules.length + d - 1)]
  nextPort : b'.nextPort = b.nextPort + 1
  calls : b'.calls = b.calls + d
  created : ∀ u < d, (create (b.calls + u) (j + u)).isSome

/-- The body of the loop over `k` attaches a whole copy, or ends at a `create_one` call
of it that failed. -/
theorem addOutput_spec {b : Build σ} {mod mc : Nat} (hreq : Requests create c)
    (hmod : mod < b.modules.length) (hmc : mc + 1 < size)
    (hport : b.wireEntries.length = b.nextPort) (k : Nat) :
    match addOutput create size mod mc b k with
    | .ok b' => Attached create c mod (mc + 1) (size - (mc + 1)) (1 + k) b b'
    | .error _ => ∃ u < size - (mc + 1), create (b.calls + u) (mc + 1 + u) = none := by
  have hloop := subLoop_spec hreq hmod (size - (mc + 1)) (Grown.init b mod (mc + 1))
  rw [Nat.add_zero, Nat.zero_add, if_pos rfl] at hloop
  rw [show prevOf b.modules.length mod 0 = mod from rfl] at hloop
  have hd : 0 < size - (mc + 1) := by omega
  simp only [addOutput]
  generalize size - (mc + 1) = d at hloop hd
  cases hsub : subLoop create mod (List.range' (mc + 1) d) mod none b with
  | error b' =>
      simp only [hsub] at hloop
      exact hloop
  | ok r =>
      obtain ⟨b₁, last, first⟩ := r
      simp only [hsub] at hloop
      obtain ⟨hg, hlast, hfirst⟩ := hloop
      rw [prevOf, if_neg (by omega)] at hlast
      rw [if_neg (by omega)] at hfirst
      have hne : last ≠ mod := by omega
      have hmodules : ∀ y : Nat, ((Build.setWireEntry
          (Build.setWireDst { b₁ with nextPort := b₁.nextPort + 1 } last b₁.nextPort)
          b₁.nextPort last).setNear mod (1 + k) first).modules[y]? =
          ((b₁.modules.modify last fun m => { m with wireDst := b₁.nextPort }).modify mod
            fun m => { m with near := m.near.set (1 + k) first })[y]? := fun _ => rfl
      constructor
      · rw [Build.length_setNear, ← hg.length]
        exact List.length_modify _ _ _
      · intro y hy hymod
        rw [hmodules, List.getElem?_modify_ne _ _ (Ne.symm hymod),
          List.getElem?_modify_ne _ _ (by omega), hg.old y hy]
      · intro m hm
        rw [hmodules, List.getElem?_modify_eq, List.getElem?_modify_ne _ _ hne,
          hg.old mod hmod, hm, hfirst]
        rfl
      · intro u hu
        obtain ⟨ctx, hctx⟩ := hg.new u hu
        refine ⟨ctx, ?_⟩
        rw [hmodules, List.getElem?_modify_ne _ _ (by omega)]
        by_cases hend : u + 1 = d
        · have hpos : b.modules.length + u = last := by omega
          rw [hpos] at hctx ⊢
          rw [List.getElem?_modify_eq, hctx, if_pos hend, hg.nextPort]
          rfl
        · rw [List.getElem?_modify_ne _ _ (by omega), hctx, if_neg hend]
      · exact hg.requested
      · have hlen : b₁.wireEntries.length = b₁.nextPort := by
          rw [hg.wireEntries, hg.nextPort, hport]
        change (b₁.wireEntries ++ List.replicate (b₁.nextPort + 1 - b₁.wireEntries.length)
          none).set b₁.nextPort (some last) = _
        rw [← hlen, Nat.add_sub_cancel_left, List.set_append_right _ _ (Nat.le_refl _),
          Nat.sub_self, hg.wireEntries, hlast]
        rfl
      · change b₁.nextPort + 1 = _
        rw [hg.nextPort]
      · exact hg.calls
      · exact hg.created

/-! ## The invariants -/

/-- The links form a tree with the labels as its paths. -/
structure Links (size : Nat) (lab : Nat → List Nat) (b : Build σ) : Prop where
  base : ∃ m, b.modules[0]? = some m ∧ m.cfgIdx = 0
  cfg : ∀ x m, b.modules[x]? = some m →
    m.cfgIdx = (lab x).length ∧ m.cfgIdx < size ∧ 2 ≤ m.near.length
  root : ∀ x m, b.modules[x]? = some m → m.cfgIdx = 0 → x = 0 ∧ m.near[0]? = some none
  up : ∀ x m, b.modules[x]? = some m → m.cfgIdx ≠ 0 → ∃ q mq out, m.near[0]? = some (some q) ∧
    b.modules[q]? = some mq ∧ 1 ≤ out ∧ mq.near[out]? = some (some x) ∧ lab x = out :: lab q
  down : ∀ x m out q, b.modules[x]? = some m → 1 ≤ out → m.near[out]? = some (some q) →
    lab q = out :: lab x ∧ ∃ mq, b.modules[q]? = some mq ∧ mq.near[0]? = some (some x)

/-- Every port above zero belongs to one instance of the last module. -/
structure Ports (size : Nat) (b : Build σ) : Prop where
  length : b.wireEntries.length = b.nextPort
  zero : b.wireEntries[0]? = some none
  entry : ∀ p : Nat, 1 ≤ p → p < b.nextPort → ∃ x m, b.wireEntries[p]? = some (some x) ∧
    b.modules[x]? = some m ∧ m.cfgIdx + 1 = size ∧ m.wireDst = (p : Int)
  last : ∀ x m, b.modules[x]? = some m → m.cfgIdx + 1 = size → m.near.length = 2 ∧
    m.near[1]? = some none ∧ ∃ p : Nat, 1 ≤ p ∧ m.wireDst = (p : Int) ∧
      b.wireEntries[p]? = some (some x)

/-- The outputs up to `k` lead to an instance. -/
def Connected (m : Module σ) (k : Nat) : Prop :=
  ∀ out, 1 ≤ out → out ≤ k → ∃ q, m.near[out]? = some (some q)

/-- All outputs are connected, except for the requests still to be served and the
instances in `skip`. -/
structure Served (size : Nat) (c : Nat → Int) (todo : List (Nat × Int)) (skip : List Nat)
    (b : Build σ) : Prop where
  nodup : (todo.map Prod.fst).Nodup
  waiting : ∀ x count, (x, count) ∈ todo → ∃ m, b.modules[x]? = some m ∧ count = c m.cfgIdx ∧
    1 ≤ count ∧ m.near.length = 2 ∧ (m.cfgIdx + 1 < size → Connected m 1)
  done : ∀ x m, b.modules[x]? = some m → m.cfgIdx + 1 < size → x ∉ todo.map Prod.fst → x ∉ skip →
    m.near.length = 2 + (c m.cfgIdx).toNat ∧ Connected m (1 + (c m.cfgIdx).toNat)

/-- The labels after a copy has been attached to output `k` of `mod`. -/
def attachLab (lab : Nat → List Nat) (n mod k : Nat) (x : Nat) : List Nat :=
  if x < n then lab x else List.replicate (x - n) 1 ++ k :: lab mod

variable {mod j d k : Nat} {b b' : Build σ} {lab : Nat → List Nat}

theorem attachLab_old {n x : Nat} (h : x < n) : attachLab lab n mod k x = lab x := if_pos h

theorem attachLab_new (lab : Nat → List Nat) (n mod k u : Nat) :
    attachLab lab n mod k (n + u) = List.replicate u 1 ++ k :: lab mod := by
  rw [attachLab, if_neg (by omega), Nat.add_sub_cancel_left]

/-- An instance of the new build is new, or the parent, or unchanged. -/
theorem Attached.cases (h : Attached create c mod j d k b b') {m₀ : Module σ}
    (hmod : b.modules[mod]? = some m₀) {x : Nat} {m : Module σ} (hx : b'.modules[x]? = some m) :
    (x < b.modules.length ∧ x ≠ mod ∧ b.modules[x]? = some m) ∨
    (x = mod ∧ m = { m₀ with near := m₀.near.set k (some b.modules.length) }) ∨
    (∃ u ctx, u < d ∧ x = b.modules.length + u ∧ m =
      { cfgIdx := j + u
        near := [some (prevOf b.modules.length mod u),
          if u + 1 < d then some (b.modules.length + u + 1) else none]
        wireDst := if u + 1 = d then (b.nextPort : Int) else -1
        ctx := ctx }) := by
  have hlt : x < b.modules.length + d := h.length ▸ (List.getElem?_eq_some_iff.mp hx).1
  rcases Nat.lt_or_ge x b.modules.length with hold | hnew
  · by_cases hxm : x = mod
    · subst hxm
      exact Or.inr (Or.inl ⟨rfl, Option.some.inj (hx.symm.trans (h.parent m₀ hmod))⟩)
    · exact Or.inl ⟨hold, hxm, (h.old x hold hxm).symm.trans hx⟩
  · obtain ⟨u, rfl⟩ := Nat.exists_eq_add_of_le hnew
    obtain ⟨ctx, hctx⟩ := h.new u (by omega)
    exact Or.inr (Or.inr ⟨u, ctx, by omega, rfl, Option.some.inj (hx.symm.trans hctx)⟩)

/-- An old instance survives, with its output `k` changed if it is the parent. -/
theorem Attached.survives (h : Attached create c mod j d k b b') {x : Nat} {m : Module σ}
    (hx : b.modules[x]? = some m) :
    ∃ m', b'.modules[x]? = some m' ∧ m'.cfgIdx = m.cfgIdx ∧ m'.wireDst = m.wireDst ∧
      m'.near.length = m.near.length ∧ ∀ out, out ≠ k ∨ x ≠ mod → m'.near[out]? = m.near[out]? := by
  by_cases hxm : x = mod
  · subst hxm
    refine ⟨_, h.parent m hx, rfl, rfl, List.length_set, ?_⟩
    intro out hout
    exact List.getElem?_set_ne (Ne.symm (hout.resolve_right (not_not_intro rfl)))
  · refine ⟨m, ?_, rfl, rfl, rfl, fun _ _ => rfl⟩
    rw [h.old x (List.getElem?_eq_some_iff.mp hx).1 hxm, hx]

/-- A copy that fits the free output `k` of `mod`. -/
structure Fits (size mod j d k : Nat) (m₀ : Module σ) (b : Build σ) : Prop where
  parent : b.modules[mod]? = some m₀
  index : j = m₀.cfgIdx + 1
  total : j + d = size
  pos : 0 < d
  output : 1 ≤ k
  free : m₀.near[k]? = some none

variable {m₀ : Module σ}

theorem Fits.lt (hf : Fits size mod j d k m₀ b) : mod < b.modules.length :=
  (List.getElem?_eq_some_iff.mp hf.parent).1

/-- The free output of the parent leads to the new copy. -/
theorem Fits.output_set (hf : Fits size mod j d k m₀ b) :
    (m₀.near.set k (some b.modules.length))[k]? = some (some b.modules.length) := by
  obtain ⟨hlt, -⟩ := List.getElem?_eq_some_iff.mp hf.free
  exact List.getElem?_set_self hlt

/-- The parent of an old instance is old, and output `k` of `mod` was free. -/
theorem Links.up_old (hl : Links size lab b) (h : Attached create c mod j d k b b')
    (hf : Fits size mod j d k m₀ b) {x : Nat} {m : Module σ} (hx : b.modules[x]? = some m)
    (hne : m.cfgIdx ≠ 0) :
    ∃ q mq out, m.near[0]? = some (some q) ∧ b'.modules[q]? = some mq ∧ 1 ≤ out ∧
      mq.near[out]? = some (some x) ∧
      attachLab lab b.modules.length mod k x =
        out :: attachLab lab b.modules.length mod k q := by
  obtain ⟨q, mq, out, hnear, hq, hout, hxq, hlab⟩ := hl.up x m hx hne
  obtain ⟨mq', hq', -, -, -, hkeep⟩ := h.survives hq
  refine ⟨q, mq', out, hnear, hq', hout, ?_, ?_⟩
  · rw [hkeep out, hxq]
    by_contra hcon
    push Not at hcon
    obtain ⟨rfl, rfl⟩ := hcon
    rw [hf.parent] at hq
    rw [← Option.some.inj hq, hf.free] at hxq
    cases hxq
  · rw [attachLab_old (List.getElem?_eq_some_iff.mp hx).1,
      attachLab_old (List.getElem?_eq_some_iff.mp hq).1, hlab]

/-- What an old instance led to it still leads to. -/
theorem Links.down_old (hl : Links size lab b) (h : Attached create c mod j d k b b')
    (hf : Fits size mod j d k m₀ b) {x out q : Nat} {m : Module σ}
    (hx : b.modules[x]? = some m) (hout : 1 ≤ out) (hq : m.near[out]? = some (some q)) :
    attachLab lab b.modules.length mod k q =
        out :: attachLab lab b.modules.length mod k x ∧
      ∃ mq, b'.modules[q]? = some mq ∧ mq.near[0]? = some (some x) := by
  obtain ⟨hlab, mq, hmq, hnear⟩ := hl.down x m out q hx hout hq
  obtain ⟨mq', hq', -, -, -, hkeep⟩ := h.survives hmq
  rw [attachLab_old (List.getElem?_eq_some_iff.mp hx).1,
    attachLab_old (List.getElem?_eq_some_iff.mp hmq).1]
  refine ⟨hlab, mq', hq', ?_⟩
  rw [hkeep 0 (Or.inl (by have := hf.output; omega)), hnear]

theorem Links.attach (hl : Links size lab b) (h : Attached create c mod j d k b b')
    (hf : Fits size mod j d k m₀ b) :
    Links size (attachLab lab b.modules.length mod k) b' := by
  have hmodlt := hf.lt
  have hparent := hf.parent
  obtain ⟨hlen₀, hlt₀, htwo₀⟩ := hl.cfg mod m₀ hparent
  have htotal := hf.total
  have hindex := hf.index
  constructor
  case base =>
    obtain ⟨m, hm, hzero⟩ := hl.base
    obtain ⟨m', hm', hcfg, -⟩ := h.survives hm
    exact ⟨m', hm', hcfg.trans hzero⟩
  case cfg =>
    intro x m hx
    rcases h.cases hparent hx with ⟨hold, -, hx'⟩ | ⟨rfl, rfl⟩ | ⟨u, ctx, hu, rfl, rfl⟩
    · rw [attachLab_old hold]
      exact hl.cfg x m hx'
    · rw [attachLab_old hmodlt]
      exact ⟨hlen₀, hlt₀, by simpa using htwo₀⟩
    · rw [attachLab_new]
      simp only [List.length_append, List.length_replicate, List.length_cons, List.length_nil]
      omega
  case root =>
    intro x m hx hzero
    rcases h.cases hparent hx with ⟨-, -, hx'⟩ | ⟨rfl, rfl⟩ | ⟨u, ctx, hu, rfl, rfl⟩
    · exact hl.root x m hx' hzero
    · obtain ⟨h0, hnear⟩ := hl.root x m₀ hparent hzero
      refine ⟨h0, ?_⟩
      rw [List.getElem?_set_ne (by have := hf.output; omega)]
      exact hnear
    · simp only at hzero
      omega
  case up =>
    intro x m hx hne
    rcases h.cases hparent hx with ⟨-, -, hx'⟩ | ⟨rfl, rfl⟩ | ⟨u, ctx, hu, rfl, rfl⟩
    · exact hl.up_old h hf hx' hne
    · rw [List.getElem?_set_ne (by have := hf.output; omega)]
      exact hl.up_old h hf hparent hne
    · rw [attachLab_new]
      cases u with
      | zero =>
          refine ⟨mod, _, k, rfl, h.parent m₀ hparent, hf.output, hf.output_set, ?_⟩
          rw [attachLab_old hmodlt]
          rfl
      | succ u =>
          obtain ⟨ctx', hprev⟩ := h.new u (by omega)
          refine ⟨b.modules.length + u, _, 1, rfl, hprev, Nat.le_refl 1, ?_, ?_⟩
          · rw [if_pos hu]
            rfl
          · rw [attachLab_new]
            rfl
  case down =>
    intro x m out q hx hout hq
    rcases h.cases hparent hx with ⟨-, -, hx'⟩ | ⟨rfl, rfl⟩ | ⟨u, ctx, hu, rfl, rfl⟩
    · exact hl.down_old h hf hx' hout hq
    · by_cases hk : out = k
      · subst hk
        rw [hf.output_set] at hq
        obtain rfl := Option.some.inj (Option.some.inj hq)
        obtain ⟨ctx, hnew⟩ := h.new 0 hf.pos
        have hlabn := attachLab_new lab b.modules.length x out 0
        rw [Nat.add_zero] at hnew hlabn
        refine ⟨?_, _, hnew, rfl⟩
        rw [attachLab_old hmodlt, hlabn]
        rfl
      · rw [List.getElem?_set_ne (Ne.symm hk)] at hq
        exact hl.down_old h hf hparent hout hq
    · obtain ⟨rfl, hnext⟩ : out = 1 ∧ u + 1 < d := by
        match out, hout with
        | 1, _ =>
            refine ⟨rfl, ?_⟩
            by_contra hcon
            simp [hcon] at hq
        | out + 2, _ => simp at hq
      rw [if_pos hnext] at hq
      obtain rfl := Option.some.inj (Option.some.inj hq)
      obtain ⟨ctx', hnew⟩ := h.new (u + 1) hnext
      refine ⟨?_, _, hnew, rfl⟩
      rw [Nat.add_assoc, attachLab_new, attachLab_new]
      rfl

theorem Ports.attach (hp : Ports size b) (h : Attached create c mod j d k b b')
    (hf : Fits size mod j d k m₀ b) : Ports size b' := by
  have htotal := hf.total
  have hpos := hf.pos
  have hindex := hf.index
  have hlen := hp.length
  have hone : 0 < b.wireEntries.length := (List.getElem?_eq_some_iff.mp hp.zero).1
  have hwireOld : ∀ p < b.nextPort, b'.wireEntries[p]? = b.wireEntries[p]? := by
    intro p hlt
    rw [h.wireEntries, List.getElem?_append_left (by omega)]
  have hwireNew : b'.wireEntries[b.nextPort]? = some (some (b.modules.length + d - 1)) := by
    rw [h.wireEntries, ← hlen]
    exact List.getElem?_concat_length
  constructor
  · rw [h.wireEntries, h.nextPort, List.length_append, hlen, List.length_singleton]
  · rw [hwireOld 0 (by omega), hp.zero]
  · intro p hp1 hplt
    rw [h.nextPort] at hplt
    rcases Nat.lt_succ_iff_lt_or_eq.mp hplt with hold | rfl
    · obtain ⟨x, m, hx, hm, hcfg, hdst⟩ := hp.entry p hp1 hold
      obtain ⟨m', hm', hcfg', hdst', -, -⟩ := h.survives hm
      exact ⟨x, m', by rw [hwireOld p hold, hx], hm', by rw [hcfg', hcfg], by rw [hdst', hdst]⟩
    · obtain ⟨ctx, hnew⟩ := h.new (d - 1) (by omega)
      refine ⟨_, _, hwireNew, (by rw [Nat.add_sub_assoc hpos]; exact hnew), ?_, ?_⟩
      · simp only
        omega
      · simp only [Nat.sub_add_cancel hpos, if_true]
  · intro x m hx hcfg
    rcases h.cases hf.parent hx with ⟨-, -, hx'⟩ | ⟨rfl, rfl⟩ | ⟨u, ctx, hu, rfl, rfl⟩
    · obtain ⟨hnear, hnone, p, hp1, hdst, hwire⟩ := hp.last x m hx' hcfg
      refine ⟨hnear, hnone, p, hp1, hdst, ?_⟩
      have := (List.getElem?_eq_some_iff.mp hwire).1
      rw [hwireOld p (by omega), hwire]
    · simp only at hcfg
      omega
    · simp only at hcfg
      have hend : u + 1 = d := by omega
      refine ⟨rfl, ?_, b.nextPort, by omega, ?_, ?_⟩
      · rw [if_neg (by omega)]
        rfl
      · simp only [if_pos hend]
      · rw [hwireNew]
        congr 2
        omega

theorem Served.attach {todo : List (Nat × Int)} (hs : Served size c todo [mod] b)
    (h : Attached create c mod j d k b b') (hf : Fits size mod j d k m₀ b)
    (hmod : mod ∉ todo.map Prod.fst) :
    Served size c (todo ++ newRequests c b.modules.length j d) [mod] b' := by
  have htotal := hf.total
  have holdKey : ∀ x ∈ todo.map Prod.fst, x < b.modules.length := by
    intro x hx
    obtain ⟨⟨x, count⟩, hmem, rfl⟩ := List.mem_map.mp hx
    obtain ⟨m, hm, -⟩ := hs.waiting x count hmem
    exact (List.getElem?_eq_some_iff.mp hm).1
  have hnewKey : ∀ x ∈ (newRequests c b.modules.length j d).map Prod.fst,
      b.modules.length ≤ x := by
    intro x hx
    obtain ⟨⟨x, count⟩, hmem, rfl⟩ := List.mem_map.mp hx
    obtain ⟨u, -, rfl, -⟩ := mem_newRequests.mp hmem
    exact Nat.le_add_right _ _
  constructor
  · rw [List.map_append, List.nodup_append]
    refine ⟨hs.nodup, nodup_newRequests _ _ _ _, ?_⟩
    intro x hx y hy
    have := holdKey x hx
    have := hnewKey y hy
    omega
  · intro x count hmem
    rcases List.mem_append.mp hmem with hmem | hmem
    · obtain ⟨m, hm, hcount⟩ := hs.waiting x count hmem
      have hne : x ≠ mod := fun heq => hmod (heq ▸ List.mem_map_of_mem hmem)
      exact ⟨m, by rw [h.old x (List.getElem?_eq_some_iff.mp hm).1 hne, hm], hcount⟩
    · obtain ⟨u, hu, rfl, rfl, hc⟩ := mem_newRequests.mp hmem
      obtain ⟨ctx, hnew⟩ := h.new u hu
      refine ⟨_, hnew, rfl, hc, rfl, ?_⟩
      intro hlt out hout hle
      simp only at hlt
      obtain rfl : out = 1 := by omega
      rw [if_pos (by omega)]
      exact ⟨_, rfl⟩
  · intro x m hx hcfg hnot hskip
    rw [List.map_append, List.mem_append, not_or] at hnot
    rcases h.cases hf.parent hx with ⟨-, -, hx'⟩ | ⟨rfl, -⟩ | ⟨u, ctx, hu, rfl, rfl⟩
    · exact hs.done x m hx' hcfg hnot.1 hskip
    · exact absurd (List.mem_singleton.mpr rfl) hskip
    · simp only at hcfg
      have hzero : (c (j + u)).toNat = 0 := by
        by_contra hc
        apply hnot.2
        exact List.mem_map.mpr ⟨(b.modules.length + u, c (j + u)),
          mem_newRequests.mpr ⟨u, hu, rfl, rfl, by omega⟩, rfl⟩
      simp only [hzero]
      refine ⟨rfl, ?_⟩
      intro out hout hle
      obtain rfl : out = 1 := by omega
      rw [if_pos (by omega)]
      exact ⟨_, rfl⟩

end PipelineTunnel.Pipeline
