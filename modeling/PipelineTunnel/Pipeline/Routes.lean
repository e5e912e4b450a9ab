import PipelineTunnel.Pipeline.Construction
import PipelineTunnel.Pipeline.Mailbox

/-!
# The ways through a chain

What `construct` leaves behind, in terms of where a packet goes next: the line of the
modules of a chain without extra outputs, and the tree of a chain with one module that
has some. Contexts do not matter here.
-/

namespace PipelineTunnel.Pipeline

variable {σ : Type*} {create : Nat → Nat → Option (σ × Int)} {size : Nat}
  {order : Nat → List (Nat × Int) → List (Nat × Int)}

/-! ## Lines of consecutive modules -/
/-- The modules in the order a packet visits them. -/
def travel (size : Nat) : Dir → List Nat
  | .encode => List.range size
  | .decode => (List.range size).reverse

theorem nodup_travel (size : Nat) (d : Dir) : (travel size d).Nodup := by
  cases d
  · exact List.nodup_range
  · exact List.nodup_reverse.mpr List.nodup_range

theorem mem_travel {d : Dir} {m : Nat} : m ∈ travel size d ↔ m < size := by
  cases d <;> simp [travel]

/-- The first module on the way of a packet. -/
theorem travel_cons (h : size ≠ 0) (d : Dir) : ∃ l, travel size d =
    (match d with | .encode => 0 | .decode => size - 1) :: l := by
  obtain ⟨k, rfl⟩ := Nat.exists_eq_succ_of_ne_zero h
  cases d with
  | encode => exact ⟨_, List.range_succ_eq_map⟩
  | decode => exact ⟨_, by rw [travel, List.range_succ, List.reverse_concat]; rfl⟩

theorem range_middle {m : Nat} {before after : List Nat}
    (h : List.range size = before ++ m :: after) :
    m = before.length ∧ size = before.length + 1 + after.length := by
  have hlen := congrArg List.length h
  simp only [List.length_range, List.length_append, List.length_cons] at hlen
  have hget := congrArg (fun l => l[before.length]?) h
  simp only [List.getElem?_range (show before.length < size by omega),
    List.getElem?_append_right (Nat.le_refl _), Nat.sub_self, List.getElem?_cons_zero] at hget
  exact ⟨(Option.some.inj hget).symm, by omega⟩

theorem encodeLine_of_hops {c : Chain σ} {last : Hop}
    (hnext : ∀ m, m + 1 < size → c.hop m 1 = some (.toModule (m + 1) .encode))
    (hlast : 0 < size → c.hop (size - 1) 1 = some last) :
    c.Line .encode (travel size .encode) last := by
  refine ⟨nodup_travel size .encode, ?_, ?_⟩
  · intro before m q after heq
    obtain ⟨rfl, hsize⟩ := range_middle heq
    have hrest : List.range size = (before ++ [before.length]) ++ q :: after := by
      simpa [travel] using heq
    obtain ⟨rfl, -⟩ := range_middle hrest
    rw [List.length_cons] at hsize
    rw [List.length_append, List.length_singleton]
    exact hnext _ (by omega)
  · intro before m heq
    obtain ⟨rfl, hsize⟩ := range_middle heq
    have hm : before.length = size - 1 := by simp at hsize; omega
    rw [hm]
    exact hlast (by omega)

theorem decodeLine_of_hops {c : Chain σ} {last : Hop}
    (hnext : ∀ m, m + 1 < size → c.hop (m + 1) 0 = some (.toModule m .decode))
    (hlast : 0 < size → c.hop 0 0 = some last) :
    c.Line .decode (travel size .decode) last := by
  refine ⟨nodup_travel size .decode, ?_, ?_⟩
  · intro before m q after heq
    have hrev := congrArg List.reverse heq
    rw [travel, List.reverse_reverse] at hrev
    have hq : List.range size = after.reverse ++ q :: m :: before.reverse := by
      simpa using hrev
    have hm : List.range size = (after.reverse ++ [q]) ++ m :: before.reverse := by
      simpa using hrev
    obtain ⟨rfl, -⟩ := range_middle hq
    obtain ⟨rfl, hsize⟩ := range_middle hm
    rw [List.length_append, List.length_singleton] at hsize ⊢
    exact hnext _ (by omega)
  · intro before m heq
    have hrev := congrArg List.reverse heq
    rw [travel, List.reverse_reverse] at hrev
    have hq : List.range size = [] ++ m :: before.reverse := by simpa using hrev
    obtain ⟨rfl, hsize⟩ := range_middle hq
    exact hlast (by omega)

theorem straight_of_hops {c : Chain σ}
    (hnext : ∀ m, m + 1 < size → c.hop m 1 = some (.toModule (m + 1) .encode))
    (hprev : ∀ m, m + 1 < size → c.hop (m + 1) 0 = some (.toModule m .decode))
    (hlast : 0 < size → c.hop (size - 1) 1 = some (.toWire 1))
    (hfirst : 0 < size → c.hop 0 0 = some (.toWire 0)) (d : Dir) :
    c.Line d (travel size d) (.toWire d.dst) := by
  cases d with
  | encode => exact encodeLine_of_hops hnext hlast
  | decode => exact decodeLine_of_hops hprev hfirst

/-! ## A chain without extra outputs -/

/-- A chain without extra outputs. -/
structure Chain.Straight (c : Chain σ) (size : Nat) : Prop where
  length : c.modules.length = size
  entry : c.entryExt = if size = 0 then none else some 0
  ports : size ≠ 0 → c.wireEntries = [none, some (size - 1)]
  line : ∀ d, c.Line d (travel size d) (.toWire d.dst)

/-- Without requests the constructor builds the main chain only. -/
theorem construct_straight (hreq : Requests create fun _ => 0)
    (hcreate : ∀ n < size, (create n n).isSome) : (construct create size order).Straight size := by
  have hmain := mainChain_spec size hreq
  cases hrun : mainChain create size with
  | error e =>
      rw [hrun] at hmain
      obtain ⟨n, hn, hnone⟩ := hmain
      simpa [hnone] using hcreate n hn
  | ok b =>
      rw [hrun] at hmain
      have hm : Main create (fun _ => 0) size b := hmain
      have hnone : b.requested = [] := by
        rw [hm.requested, List.eq_nil_iff_forall_not_mem]
        rintro ⟨x, count⟩ hmem
        obtain ⟨-, -, -, -, hcount⟩ := mem_newRequests.mp hmem
        omega
      by_cases hzero : size = 0
      · subst hzero
        have hempty : b.modules = [] := List.eq_nil_of_length_eq_zero hm.length
        have hc : construct create 0 order = {} := by simp [construct, hrun, hempty]
        rw [hc]
        refine ⟨rfl, rfl, fun h => absurd rfl h, ?_⟩
        exact straight_of_hops (by omega) (by omega) (by omega) (by omega)
      · have hne : ¬b.modules = [] := by
          rw [← List.length_eq_zero_iff, hm.length]
          exact hzero
        have hrounds : rounds create size order size 0 (linkMain b) = .ok (linkMain b) := by
          obtain ⟨fuel, rfl⟩ := Nat.exists_eq_succ_of_ne_zero hzero
          rw [rounds, if_pos (show (linkMain b).requested = [] from hnone)]
        have hc : construct create size order = (linkMain b).finish := by
          simp [construct, hrun, hne, hrounds]
        have hmod : ∀ i < size, ∃ ctx, (linkMain b).finish.modules[i]? = some _ :=
          fun i hi => linkMain_modules hm hi
        rw [hc]
        refine ⟨?_, ?_, ?_, ?_⟩
        · simp [Build.finish, linkMain, Build.setWireDst, hm.length]
        · rw [if_neg hzero]
          rfl
        · intro _
          simp [Build.finish, linkMain, Build.setWireDst, hm.length]
        · apply straight_of_hops
          · intro m hlt
            obtain ⟨ctx, hget⟩ := hmod m (by omega)
            simp [Chain.hop, hget, writePacket, hlt]
          · intro m hlt
            obtain ⟨ctx, hget⟩ := hmod (m + 1) hlt
            simp [Chain.hop, hget, writePacket]
          · intro hpos
            obtain ⟨ctx, hget⟩ := hmod (size - 1) (by omega)
            simp [Chain.hop, hget, writePacket, show size - 1 + 1 = size by omega]
          · intro hpos
            obtain ⟨ctx, hget⟩ := hmod 0 hpos
            simp [Chain.hop, hget, writePacket]

theorem Chain.Straight.setCtx {c : Chain σ} (h : c.Straight size)
    (x : Nat) (ctx : σ) : (c.setCtx x ctx).Straight size where
  length := by simp [Chain.setCtx, h.length]
  entry := h.entry
  ports := h.ports
  line d := (h.line d).setCtx x ctx

/-! ## A chain with one branching module -/

/-- The place in the module list of an instance. -/
def Chain.cfg (c : Chain σ) (x : Nat) : Option Nat := c.modules[x]?.map Module.cfgIdx

@[simp] theorem Chain.cfg_setCtx (c : Chain σ) (x : Nat) (ctx : σ) (m : Nat) :
    (c.setCtx x ctx).cfg m = c.cfg m := by
  rw [cfg, cfg, modules_setCtx, Option.map_map]
  congr 1
  funext mod
  simp only [Function.comp_apply]
  split <;> rfl

/-- Only module `s` has extra outputs, `outs` in all: the instances up to it are those of
the main chain, and every way ends at one of the ports below `ports`. -/
structure Chain.Routes (c : Chain σ) (size s outs ports : Nat) : Prop where
  entry : c.entryExt = some 0
  main : ∀ i < size, c.cfg i = some i
  single : ∀ x i, c.cfg x = some i → i ≤ s → x = i
  cfg_lt : ∀ x i, c.cfg x = some i → i < size
  out : ∀ x, c.cfg x = some 0 → c.hop x 0 = some (.toWire 0)
  up : ∀ x i, c.cfg x = some (i + 1) →
    ∃ q, c.cfg q = some i ∧ c.hop x 0 = some (.toModule q .decode)
  down : ∀ x i, c.cfg x = some i → i + 1 < size → ∀ o : Nat, 1 ≤ o → o ≤ 1 ∨ i = s ∧ o ≤ outs →
    ∃ q, c.cfg q = some (i + 1) ∧ c.hop x o = some (.toModule q .encode)
  last : ∀ x i, c.cfg x = some i → i + 1 = size →
    ∃ p : Nat, 1 ≤ p ∧ p < ports ∧ c.hop x 1 = some (.toWire p)
  length : c.wireEntries.length = ports
  port : ∀ p, 1 ≤ p → p < ports →
    ∃ x i, c.wireEntries[p]? = some (some x) ∧ c.cfg x = some i ∧ i + 1 = size

variable {s outs ports : Nat} {c : Chain σ}

theorem Chain.Routes.setCtx (h : c.Routes size s outs ports) (x : Nat) (ctx : σ) :
    (c.setCtx x ctx).Routes size s outs ports := by
  constructor
  case entry =>
    exact h.entry
  case main =>
    simpa using h.main
  case single =>
    simpa using h.single
  case cfg_lt =>
    simpa using h.cfg_lt
  case out =>
    simpa using h.out
  case up =>
    simpa using h.up
  case down =>
    simpa using h.down
  case last =>
    simpa using h.last
  case length =>
    exact h.length
  case port =>
    simp only [cfg_setCtx]
    exact h.port

/-- The line towards the wire up to the branching module. -/
theorem Chain.Routes.encodeLine (h : c.Routes size s outs ports) (hs : s ≤ size) {last : Hop}
    (hlast : 0 < s → c.hop (s - 1) 1 = some last) :
    c.Line .encode (travel s .encode) last := by
  refine encodeLine_of_hops ?_ hlast
  intro m hm
  obtain ⟨q, hq, hhop⟩ := h.down m m (h.main m (by omega)) (by omega) 1 (Nat.le_refl 1) (.inl
    (Nat.le_refl 1))
  obtain rfl := h.single q (m + 1) hq (by omega)
  exact hhop

/-- The line from the branching module towards the external side. -/
theorem Chain.Routes.decodeLine (h : c.Routes size s outs ports) (hs : s ≤ size) :
    c.Line .decode (travel s .decode) (.toWire 0) := by
  refine decodeLine_of_hops ?_ fun hpos => h.out 0 (h.main 0 (by omega))
  intro m hm
  obtain ⟨q, hq, hhop⟩ := h.up (m + 1) m (h.main (m + 1) (by omega))
  obtain rfl := h.single q m hq (by omega)
  exact hhop

variable {lab : Nat → List Nat} {b : Build σ} {counts : Nat → Int}

theorem cfg_finish {x i : Nat} :
    b.finish.cfg x = some i ↔ ∃ m, b.modules[x]? = some m ∧ m.cfgIdx = i := by
  rw [Chain.cfg, Option.map_eq_some_iff]
  rfl

theorem hop_finish {x : Nat} {m : Module σ} (hx : b.modules[x]? = some m) (o : Nat) :
    b.finish.hop x o = some
      (match m.near[o]? with
        | some (some q) => .toModule q (if o = 0 then .decode else .encode)
        | _ => .toWire (if o = 0 then 0 else m.wireDst)) := by
  have hmod : b.finish.modules[x]? = some m := hx
  rw [Chain.hop, hmod]
  cases hnear : m.near[o]? with
  | none => simp [writePacket, hnear]
  | some q => cases q <;> simp [writePacket, hnear]

/-- Up to the first module with extra outputs there is one instance of each. -/
theorem Built.single (h : Built create size counts lab b) (hcount : ∀ i < s, (counts i).toNat = 0) :
    ∀ (i x : Nat) (m : Module σ), b.modules[x]? = some m → m.cfgIdx = i → i ≤ s → x = i := by
  intro i
  induction i with
  | zero =>
      intro x m hx hcfg _
      exact (h.links.root x m hx hcfg).1
  | succ i ih =>
      intro x m hx hcfg hi
      -- both `x` and the instance of the main chain are behind output 1 of instance `i`
      have hbehind : ∀ {y : Nat} {my : Module σ}, b.modules[y]? = some my → my.cfgIdx = i + 1 →
          ∃ mi, b.modules[i]? = some mi ∧ mi.near[1]? = some (some y) := by
        intro y my hy hcfgy
        obtain ⟨q, mq, out, -, hq, hout, hnear, hlab⟩ := h.links.up y my hy (by omega)
        have hcfgq : mq.cfgIdx = i := by
          have hlen := (h.links.cfg y my hy).1
          rw [hlab, List.length_cons, ← (h.links.cfg q mq hq).1] at hlen
          omega
        obtain rfl := ih q mq hq hcfgq (by omega)
        have hlt := (h.links.cfg y my hy).2.1
        have hlen := (h.served.done q mq hq (by omega) (by simp) (by simp)).1
        rw [hcfgq, hcount q (by omega)] at hlen
        have hbound := (List.getElem?_eq_some_iff.mp hnear).1
        obtain rfl : out = 1 := by omega
        exact ⟨mq, hq, hnear⟩
      have hsize := (h.links.cfg x m hx).2.1
      obtain ⟨hlen, hlab⟩ := h.mainLab (i + 1) (by omega)
      have hmain := List.getElem?_eq_getElem hlen
      have hcfgm := (h.links.cfg _ _ hmain).1
      rw [hlab, List.length_replicate] at hcfgm
      obtain ⟨mi, hmi, hx1⟩ := hbehind hx hcfg
      obtain ⟨mi', hmi', hm1⟩ := hbehind hmain hcfgm
      obtain rfl := Option.some.inj (hmi.symm.trans hmi')
      exact Option.some.inj (Option.some.inj (hx1.symm.trans hm1))

/-- The finished chain of a list in which only module `s` requests extra outputs. -/
theorem Built.routes (h : Built create size counts lab b)
    (hcount : ∀ i, i ≠ s → (counts i).toNat = 0) (houts : s < size → (counts s).toNat + 1 = outs) :
    b.finish.Routes size s outs b.nextPort := by
  have hlab : ∀ {x m}, b.modules[x]? = some m → m.cfgIdx = (lab x).length :=
    fun {x m} hx => (h.links.cfg x m hx).1
  constructor
  case entry =>
    rfl
  case main =>
    intro i hi
    obtain ⟨hlen, hmain⟩ := h.mainLab i hi
    refine cfg_finish.mpr ⟨_, List.getElem?_eq_getElem hlen, ?_⟩
    rw [hlab (List.getElem?_eq_getElem hlen), hmain, List.length_replicate]
  case single =>
    intro x i hx hi
    obtain ⟨m, hm, hcfg⟩ := cfg_finish.mp hx
    exact h.single (fun i hi => hcount i (Nat.ne_of_lt hi)) i x m hm hcfg hi
  case cfg_lt =>
    intro x i hx
    obtain ⟨m, hm, rfl⟩ := cfg_finish.mp hx
    exact (h.links.cfg x m hm).2.1
  case out =>
    intro x hx
    obtain ⟨m, hm, hcfg⟩ := cfg_finish.mp hx
    have hhop := hop_finish hm 0
    rw [(h.links.root x m hm hcfg).2] at hhop
    exact hhop
  case up =>
    intro x i hx
    obtain ⟨m, hm, hcfg⟩ := cfg_finish.mp hx
    obtain ⟨q, mq, out, hnear, hq, -, -, hlabx⟩ := h.links.up x m hm (by omega)
    refine ⟨q, cfg_finish.mpr ⟨mq, hq, ?_⟩, ?_⟩
    · have hlen := hlab hm
      rw [hlabx, List.length_cons, ← hlab hq] at hlen
      omega
    · have hhop := hop_finish hm 0
      rw [hnear] at hhop
      exact hhop
  case down =>
    intro x i hx hi o ho hle
    obtain ⟨m, hm, rfl⟩ := cfg_finish.mp hx
    have hconn : o ≤ 1 + (counts m.cfgIdx).toNat := by
      rcases hle with hle | ⟨heq, hle⟩
      · omega
      · have := houts (by omega)
        rw [heq]
        omega
    obtain ⟨q, hq⟩ := (h.served.done x m hm hi (by simp) (by simp)).2 o ho hconn
    obtain ⟨hlabq, mq, hmq, -⟩ := h.links.down x m o q hm ho hq
    refine ⟨q, cfg_finish.mpr ⟨mq, hmq, ?_⟩, ?_⟩
    · rw [hlab hmq, hlabq, List.length_cons, ← hlab hm]
    · have hhop := hop_finish hm o
      rw [hq, if_neg (by omega)] at hhop
      exact hhop
  case last =>
    intro x i hx hi
    obtain ⟨m, hm, rfl⟩ := cfg_finish.mp hx
    obtain ⟨-, hnone, p, hp, hdst, hwire⟩ := h.ports.last x m hm hi
    refine ⟨p, hp, ?_, ?_⟩
    · rw [← h.ports.length]
      exact (List.getElem?_eq_some_iff.mp hwire).1
    · have hhop := hop_finish hm 1
      rw [hnone, if_neg (by decide), hdst] at hhop
      exact hhop
  case length =>
    exact h.ports.length
  case port =>
    intro p hp hlt
    obtain ⟨x, m, hx, hm, hcfg, -⟩ := h.ports.entry p hp hlt
    exact ⟨x, m.cfgIdx, hx, cfg_finish.mpr ⟨m, hm, rfl⟩, hcfg⟩

end PipelineTunnel.Pipeline
