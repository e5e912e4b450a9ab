import PipelineTunnel.Pipeline.Construction

/-!
# What a chain does after a failed construction

The constructor reports a failure only by what it leaves behind: an empty
`_entry_ext` after phase 1, entry points without instances after phase 2. `push_packet`
takes the first for a chain without modules and follows the second.

## Implementation notes

`Ends` follows a packet from instance to instance until it reaches `wire_write`. A
module may write to any of its own outputs in the direction of the packet; following a
pointer to a destroyed instance is a `fault`.
-/

namespace PipelineTunnel.Pipeline

variable {σ : Type*} {c : Nat → Int} {size : Nat}

/-- What becomes of a pushed packet. `visited` are the indices of the modules that
processed it before `wire_write`. -/
inductive Outcome where
  | dropped
  | wire (visited : List Nat) (dst : Int)
  | fault

/-- The outputs a module may write to: its own ones towards the wire, output 0 in the
other direction. -/
def Writes (c : Nat → Int) (dir : Dir) (m : Module σ) (dst : Int) : Prop :=
  match dir with
  | .encode => 1 ≤ dst ∧ dst ≤ 1 + max 0 (c m.cfgIdx)
  | .decode => dst = 0

/-- A packet enqueued at an instance can end like this. -/
inductive Ends (ch : Chain σ) (c : Nat → Int) (dir : Dir) : Nat → Outcome → Prop where
  | fault {x : Nat} : ch.modules[x]? = none → Ends ch c dir x .fault
  | exit {x : Nat} {m : Module σ} {dst d : Int} : ch.modules[x]? = some m →
      Writes c dir m dst → writePacket m dst = .toWire d → Ends ch c dir x (.wire [m.cfgIdx] d)
  | hop {x q : Nat} {m : Module σ} {dst d : Int} {dir' : Dir} {visited : List Nat} :
      ch.modules[x]? = some m → Writes c dir m dst → writePacket m dst = .toModule q dir' →
      Ends ch c dir q (.wire visited d) → Ends ch c dir x (.wire (m.cfgIdx :: visited) d)
  | hopFault {x q : Nat} {m : Module σ} {dst : Int} {dir' : Dir} :
      ch.modules[x]? = some m → Writes c dir m dst → writePacket m dst = .toModule q dir' →
      Ends ch c dir q .fault → Ends ch c dir x .fault

/-- A packet passed to `push_packet` can end like this. -/
def PushEnds (ch : Chain σ) (c : Nat → Int) (cancelled ownerAlive : Bool) (srcIdx : Int) (dir : Dir)
    (o : Outcome) : Prop :=
  match pushPacket ch cancelled ownerAlive srcIdx dir with
  | .dropped => o = .dropped
  | .passThrough d => o = .wire [] d
  | .enqueued x => Ends ch c dir x o
  | .null => o = .fault

/-- The modules of the list in the order a packet meets them. -/
def fullPath (size : Nat) : Dir → List Nat
  | .encode => List.range size
  | .decode => (List.range size).reverse

/-- Every push drops the packet or takes it through the whole list, and none takes the
pass-through branch. Port numbers from the wire start at one. -/
def NeverUnprocessed (ch : Chain σ) (c : Nat → Int) (size : Nat) : Prop :=
  ∀ cancelled ownerAlive srcIdx dir, (dir = .decode → srcIdx ≠ 0) →
    (∀ d, pushPacket ch cancelled ownerAlive srcIdx dir ≠ .passThrough d) ∧
    ∀ o, PushEnds ch c cancelled ownerAlive srcIdx dir o →
      o = .dropped ∨ ∃ d, o = .wire (fullPath size dir) d

/-! ## A finished chain -/

theorem writePacket_toModule {m : Module σ} {dst : Int} {q : Nat} {dir : Dir}
    (h : writePacket m dst = .toModule q dir) :
    0 ≤ dst ∧ m.near[dst.toNat]? = some (some q) := by
  simp only [writePacket] at h
  by_cases hdst : dst ≥ 0
  · rw [if_pos hdst] at h
    cases hnear : m.near[dst.toNat]? with
    | none => simp [hnear] at h
    | some e =>
        cases e with
        | none => simp [hnear] at h
        | some q' =>
            simp only [hnear, Hop.toModule.injEq] at h
            exact ⟨hdst, by rw [h.1]⟩
  · rw [if_neg hdst] at h
    cases h

theorem writePacket_toWire {m : Module σ} {dst d : Int} (h : writePacket m dst = .toWire d)
    (hdst : 0 ≤ dst) (q : Nat) : m.near[dst.toNat]? ≠ some (some q) := by
  intro hnear
  simp [writePacket, hdst, hnear] at h

variable {create : Nat → Nat → Option (σ × Int)} {lab : Nat → List Nat} {b : Build σ}

/-- The next instance towards the wire is one of the next module of the list. -/
theorem Links.down_cfg (h : Links size lab b) {x out q : Nat} {m : Module σ}
    (hx : b.modules[x]? = some m) (hout : 1 ≤ out) (hq : m.near[out]? = some (some q)) :
    ∃ mq, b.modules[q]? = some mq ∧ mq.cfgIdx = m.cfgIdx + 1 := by
  obtain ⟨hlab, mq, hmq, -⟩ := h.down x m out q hx hout hq
  refine ⟨mq, hmq, ?_⟩
  rw [(h.cfg q mq hmq).1, hlab, (h.cfg x m hx).1, List.length_cons]

/-- The next instance towards the external side is one of the module before. -/
theorem Links.up_cfg (h : Links size lab b) {x q : Nat} {m : Module σ}
    (hx : b.modules[x]? = some m) (hq : m.near[0]? = some (some q)) :
    ∃ mq, b.modules[q]? = some mq ∧ m.cfgIdx = mq.cfgIdx + 1 := by
  have hne : m.cfgIdx ≠ 0 := by
    intro hzero
    have := (h.root x m hx hzero).2
    rw [hq] at this
    cases this
  obtain ⟨q', mq, out, hnear, hmq, -, -, hlab⟩ := h.up x m hx hne
  obtain rfl := Option.some.inj (Option.some.inj (hq.symm.trans hnear))
  refine ⟨mq, hmq, ?_⟩
  rw [(h.cfg x m hx).1, hlab, (h.cfg q mq hmq).1, List.length_cons]

/-- Towards the wire a packet passes every module from the current one on. -/
theorem Built.ends_encode (h : Built create size c lab b) {x : Nat} {o : Outcome}
    (hends : Ends b.finish c .encode x o) : ∀ {m : Module σ}, b.modules[x]? = some m →
    ∃ d, o = .wire (List.range' m.cfgIdx (size - m.cfgIdx)) d := by
  induction hends with
  | fault hnone =>
      intro m hm
      exact absurd (hnone.symm.trans hm) (by simp)
  | @exit x m' dst d hx hw hwire =>
      intro m hm
      obtain rfl := Option.some.inj (hx.symm.trans hm)
      obtain ⟨hlo, hhi⟩ := hw
      refine ⟨d, ?_⟩
      have hcfg := (h.links.cfg x m' hm).2.1
      have hlast : m'.cfgIdx + 1 = size := by
        by_contra hne
        have hconn := (h.served.done x m' hm (by omega) (by simp) (by simp)).2
        obtain ⟨q, hq⟩ := hconn dst.toNat (by omega) (by omega)
        exact writePacket_toWire hwire (by omega) q hq
      rw [show size - m'.cfgIdx = 1 by omega]
      rfl
  | @hop x q m' dst d dir' visited hx hw hto _ ih =>
      intro m hm
      obtain rfl := Option.some.inj (hx.symm.trans hm)
      obtain ⟨hlo, -⟩ := hw
      obtain ⟨-, hnear⟩ := writePacket_toModule hto
      obtain ⟨mq, hmq, hcfg⟩ := h.links.down_cfg hm (by omega) hnear
      obtain ⟨d', heq⟩ := ih hmq
      have hlt := (h.links.cfg q mq hmq).2.1
      refine ⟨d', ?_⟩
      rw [Outcome.wire.injEq] at heq ⊢
      refine ⟨?_, heq.2⟩
      rw [heq.1, hcfg, show size - m'.cfgIdx = size - (m'.cfgIdx + 1) + 1 by omega,
        List.range'_succ]
  | @hopFault x q m' dst dir' hx hw hto _ ih =>
      intro m hm
      obtain rfl := Option.some.inj (hx.symm.trans hm)
      obtain ⟨hlo, -⟩ := hw
      obtain ⟨mq, hmq, -⟩ := h.links.down_cfg hm (by omega) (writePacket_toModule hto).2
      obtain ⟨d', heq⟩ := ih hmq
      cases heq

/-- Towards the external side a packet passes every module down to the first. -/
theorem Built.ends_decode (h : Built create size c lab b) {x : Nat} {o : Outcome}
    (hends : Ends b.finish c .decode x o) : ∀ {m : Module σ}, b.modules[x]? = some m →
    ∃ d, o = .wire (List.range (m.cfgIdx + 1)).reverse d := by
  induction hends with
  | fault hnone =>
      intro m hm
      exact absurd (hnone.symm.trans hm) (by simp)
  | @exit x m' dst d hx hw hwire =>
      intro m hm
      obtain rfl := Option.some.inj (hx.symm.trans hm)
      obtain rfl : dst = 0 := hw
      refine ⟨d, ?_⟩
      have hfirst : m'.cfgIdx = 0 := by
        by_contra hne
        obtain ⟨q, mq, out, hnear, -⟩ := h.links.up x m' hm hne
        exact writePacket_toWire hwire (Int.le_refl 0) q hnear
      rw [hfirst]
      rfl
  | @hop x q m' dst d dir' visited hx hw hto _ ih =>
      intro m hm
      obtain rfl := Option.some.inj (hx.symm.trans hm)
      obtain rfl : dst = 0 := hw
      obtain ⟨mq, hmq, hcfg⟩ := h.links.up_cfg hm (writePacket_toModule hto).2
      obtain ⟨d', heq⟩ := ih hmq
      refine ⟨d', ?_⟩
      rw [Outcome.wire.injEq] at heq ⊢
      refine ⟨?_, heq.2⟩
      rw [heq.1, hcfg, List.range_succ (n := mq.cfgIdx + 1), List.reverse_append]
      rfl
  | @hopFault x q m' dst dir' hx hw hto _ ih =>
      intro m hm
      obtain rfl := Option.some.inj (hx.symm.trans hm)
      obtain rfl : dst = 0 := hw
      obtain ⟨mq, hmq, -⟩ := h.links.up_cfg hm (writePacket_toModule hto).2
      obtain ⟨d', heq⟩ := ih hmq
      cases heq

theorem Built.neverUnprocessed (h : Built create size c lab b) :
    NeverUnprocessed b.finish c size := by
  intro cancelled ownerAlive srcIdx dir hsrc
  have hpush : pushPacket b.finish cancelled ownerAlive srcIdx dir = .dropped ∨
      ∃ x m, pushPacket b.finish cancelled ownerAlive srcIdx dir = .enqueued x ∧
        b.modules[x]? = some m ∧
        m.cfgIdx = match dir with | .encode => 0 | .decode => size - 1 := by
    simp only [pushPacket, Build.finish]
    cases cancelled with
    | true => exact Or.inl rfl
    | false =>
        cases ownerAlive with
        | false => exact Or.inl rfl
        | true =>
            cases dir with
            | encode =>
                obtain ⟨m, hm, hzero⟩ := h.links.base
                exact Or.inr ⟨0, m, rfl, hm, hzero⟩
            | decode =>
                by_cases hrange : srcIdx < 0 ∨ srcIdx.toNat ≥ b.wireEntries.length
                · exact Or.inl (by simp [hrange])
                · apply Or.inr
                  have hne := hsrc rfl
                  have hlen := h.ports.length
                  obtain ⟨x, m, hx, hm, hcfg, -⟩ := h.ports.entry srcIdx.toNat (by omega) (by omega)
                  refine ⟨x, m, by simp [hrange, hx], hm, by simp only; omega⟩
  rcases hpush with hdrop | ⟨x, m, henq, hm, hcfg⟩
  · refine ⟨by simp [hdrop], ?_⟩
    intro o ho
    rw [PushEnds, hdrop] at ho
    exact Or.inl ho
  · refine ⟨by simp [henq], ?_⟩
    intro o ho
    rw [PushEnds, henq] at ho
    have hlt := (h.links.cfg x m hm).2.1
    cases dir with
    | encode =>
        obtain ⟨d, rfl⟩ := h.ends_encode ho hm
        simp only at hcfg
        refine Or.inr ⟨d, ?_⟩
        rw [hcfg, Nat.sub_zero, fullPath, List.range_eq_range']
    | decode =>
        obtain ⟨d, rfl⟩ := h.ends_decode ho hm
        simp only at hcfg
        refine Or.inr ⟨d, ?_⟩
        rw [hcfg, fullPath, Nat.sub_add_cancel (by omega)]

/-- A chain without instances fails on the first push. -/
theorem not_neverUnprocessed_of_nil {ch : Chain σ} (hnil : ch.modules = []) :
    ¬NeverUnprocessed ch c size := by
  intro h
  obtain ⟨hpass, hends⟩ := h false true 0 .encode (by simp)
  cases hentry : ch.entryExt with
  | none => exact hpass 1 (by simp [pushPacket, hentry])
  | some x =>
      have hpush : pushPacket ch false true 0 .encode = .enqueued x := by
        simp [pushPacket, hentry]
      have hfault : PushEnds ch c false true 0 .encode .fault := by
        rw [PushEnds, hpush]
        exact Ends.fault (by rw [hnil]; rfl)
      rcases hends .fault hfault with h | ⟨d, h⟩ <;> cases h

/-! ## The constructor -/

/-- The count that the module at index `i` passes to `request_outputs`. -/
def requestCount (find : String → Option (ModuleBase σ)) (cfg : List ModuleSpec) (i : Nat) : Int :=
  match cfg[i]? with
  | none => 0
  | some spec =>
      match find spec.name with
      | none => 0
      | some base => base.requests spec.params

theorem createOne_requests (find : String → Option (ModuleBase σ)) (initFails : Nat → Bool)
    (cfg : List ModuleSpec) :
    Requests (createOne find initFails cfg) (requestCount find cfg) := by
  intro n i ctx count h
  simp only [createOne, requestCount] at h ⊢
  cases hspec : cfg[i]? with
  | none => simp [hspec] at h
  | some spec =>
      simp only [hspec] at h ⊢
      cases hbase : find spec.name with
      | none => simp [hbase] at h
      | some base =>
          simp only [hbase] at h ⊢
          split at h
          · cases h
          · exact (Prod.mk.inj (Option.some.inj h)).2.symm

theorem createOne_isSome {find : String → Option (ModuleBase σ)} {initFails : Nat → Bool}
    {cfg : List ModuleSpec} {n i : Nat} (h : (createOne find initFails cfg n i).isSome) :
    initFails n = false ∧ ∀ spec, cfg[i]? = some spec → (find spec.name).isSome := by
  simp only [createOne] at h
  cases hspec : cfg[i]? with
  | none => simp [hspec] at h
  | some spec =>
      simp only [hspec] at h
      cases hbase : find spec.name with
      | none => simp [hbase] at h
      | some base =>
          simp only [hbase] at h
          refine ⟨?_, ?_⟩
          · cases hf : initFails n with
            | false => rfl
            | true => simp [hf] at h
          · intro spec' heq
            rw [← Option.some.inj heq, hbase]
            rfl

theorem createOne_ne_none {find : String → Option (ModuleBase σ)} {initFails : Nat → Bool}
    {cfg : List ModuleSpec} {n i : Nat} (hi : i < cfg.length)
    (hfind : ∀ spec ∈ cfg, (find spec.name).isSome) (hinit : initFails n = false) :
    createOne find initFails cfg n i ≠ none := by
  obtain ⟨base, hbase⟩ := Option.isSome_iff_exists.mp (hfind _ (List.getElem_mem hi))
  simp [createOne, List.getElem?_eq_getElem hi, hbase, hinit]

/-- A chain forwards nothing unprocessed exactly if its construction did not fail: all
names are registered and no `init` call for an instance of the tree returns null. -/
theorem neverUnprocessed_iff (find : String → Option (ModuleBase σ)) (initFails : Nat → Bool)
    {cfg : List ModuleSpec} (hcfg : cfg ≠ [])
    {order : Nat → List (Nat × Int) → List (Nat × Int)} (horder : IsOrder order) :
    NeverUnprocessed (construct (createOne find initFails cfg) cfg.length order)
        (requestCount find cfg) cfg.length ↔
      (∀ spec ∈ cfg, (find spec.name).isSome) ∧
        ∀ n < subtree (requestCount find cfg) cfg.length 0, initFails n = false := by
  have hpos : 0 < cfg.length := List.length_pos_iff.mpr hcfg
  have hspec := construct_spec (createOne_requests find initFails cfg) horder hpos
  constructor
  · intro h
    rcases hspec with ⟨lab, b, -, hbuilt, -⟩ | ⟨hnil, -⟩
    · refine ⟨?_, ?_⟩
      · intro spec hmem
        obtain ⟨i, hi, rfl⟩ := List.getElem_of_mem hmem
        exact (createOne_isSome (hbuilt.main i hi)).2 _ (List.getElem?_eq_getElem hi)
      · intro n hn
        obtain ⟨i, hsome⟩ := hbuilt.created n hn
        exact (createOne_isSome hsome).1
    · exact absurd h (not_neverUnprocessed_of_nil hnil)
  · rintro ⟨hfind, hinit⟩
    rcases hspec with ⟨lab, b, heq, hbuilt, -⟩ | ⟨-, n, hn, i, hi, hnone⟩
    · rw [heq]
      exact hbuilt.neverUnprocessed
    · exact absurd hnone (createOne_ne_none hi hfind (hinit n hn))

/-- A module list with an extra output, built without a failure. -/
theorem neverUnprocessed_split :
    let find : String → Option (ModuleBase Unit) := fun name =>
      some ⟨fun _ => (), fun _ => if name.length = 5 then 1 else 0⟩
    let cfg : List ModuleSpec := [⟨"split", "n:2"⟩, ⟨"copy", ""⟩]
    NeverUnprocessed (construct (createOne find (fun _ => false) cfg) cfg.length fun _ l => l)
      (requestCount find cfg) cfg.length := by
  intro find cfg
  apply (neverUnprocessed_iff find (fun _ => false) (by simp [cfg])
    (fun _ l => List.Perm.refl l)).mpr
  exact ⟨fun _ _ => rfl, fun _ _ => rfl⟩

/-- After a failed `init` in phase 1 the chain hands a pushed packet straight to
`wire_write`. -/
theorem failed_init_unprocessed :
    let find : String → Option (ModuleBase Unit) := fun _ => some ⟨fun _ => (), fun _ => 0⟩
    let cfg : List ModuleSpec := [⟨"crypto", ""⟩]
    let ch := construct (createOne find (fun _ => true) cfg) cfg.length fun _ l => l
    pushPacket ch false true 0 .encode = .passThrough 1 ∧
      ¬NeverUnprocessed ch (requestCount find cfg) cfg.length :=
  ⟨rfl, not_neverUnprocessed_of_nil rfl⟩

end PipelineTunnel.Pipeline
