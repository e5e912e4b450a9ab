import PipelineTunnel.Pipeline.Wiring

/-!
# The constructor as a whole

The rounds of phase 2 keep the invariants of the wiring and a budget: the calls made
plus the size of the copies still to be attached is the size of the whole tree of
instances. So the constructor makes exactly that many `create_one` calls unless one of
them fails, and it ends after one round for each module of the list.
-/

namespace PipelineTunnel.Pipeline

variable {σ : Type*} {create : Nat → Nat → Option (σ × Int)} {size : Nat} {c : Nat → Int}
  {lab : Nat → List Nat} {b b' : Build σ}

/-! ## The budget -/

/-- The number of instances in a copy of `d` modules from index `j` on, with the copies
behind their extra outputs. -/
def subtree (c : Nat → Int) : Nat → Nat → Nat
  | 0, _ => 0
  | d + 1, j => 1 + (1 + (c j).toNat) * subtree c d (j + 1)

/-- The instances that a request will add. -/
def weight (size : Nat) (c : Nat → Int) (lab : Nat → List Nat) (r : Nat × Int) : Nat :=
  r.2.toNat * subtree c (size - ((lab r.1).length + 1)) ((lab r.1).length + 1)

def load (size : Nat) (c : Nat → Int) (lab : Nat → List Nat) (todo : List (Nat × Int)) : Nat :=
  (todo.map (weight size c lab)).sum

theorem load_append (todo todo' : List (Nat × Int)) :
    load size c lab (todo ++ todo') = load size c lab todo + load size c lab todo' := by
  rw [load, load, load, List.map_append, List.sum_append]

theorem load_requestOutputs (x : Nat) (count : Int) :
    load size c lab (requestOutputs [] x count) = weight size c lab (x, count) := by
  rw [requestOutputs, load]
  split
  · have hzero : count.toNat = 0 := by omega
    simp only [weight, hzero, Nat.zero_mul]
    rfl
  · simp

theorem load_newRequests_tail {n j : Nat} (d t : Nat) (htotal : j + t + d = size)
    (hlab : ∀ u < t + d, (lab (n + u)).length = j + u) :
    d + load size c lab (newRequests c n j (t + d)) =
      subtree c d (j + t) + load size c lab (newRequests c n j t) := by
  induction d generalizing t with
  | zero => rfl
  | succ d ih =>
      have hnext := ih (t + 1) (by omega) (fun u hu => hlab u (by omega))
      have hweight : weight size c lab (n + t, c (j + t)) =
          (c (j + t)).toNat * subtree c d (j + t + 1) := by
        have hsize : size - (j + t + 1) = d := by omega
        simp only [weight, hlab t (by omega), hsize]
      rw [newRequests_succ, load_append, load_requestOutputs, hweight,
        ← Nat.add_assoc j t 1, Nat.add_assoc t 1 d, Nat.add_comm 1 d] at hnext
      rw [subtree, Nat.add_mul, Nat.one_mul]
      omega

/-- The requests of a new copy account for everything in it beyond its own instances. -/
theorem load_newRequests {n j d : Nat} (htotal : j + d = size)
    (hlab : ∀ u < d, (lab (n + u)).length = j + u) :
    d + load size c lab (newRequests c n j d) = subtree c d j := by
  have h : d + load size c lab (newRequests c n j (0 + d)) =
      subtree c d (j + 0) + load size c lab (newRequests c n j 0) :=
    load_newRequests_tail d 0 (by omega) (by simpa using hlab)
  rw [Nat.zero_add] at h
  exact h

theorem load_congr {lab' : Nat → List Nat} {todo : List (Nat × Int)}
    (h : ∀ r ∈ todo, lab' r.1 = lab r.1) : load size c lab' todo = load size c lab todo := by
  rw [load, load]
  congr 1
  apply List.map_congr_left
  intro r hr
  rw [weight, weight, h r hr]

/-! ## Serving one request -/

/-- The state of phase 2: `rest` are the requests of this round still to be served,
`due` the instances that the request being served will still add. -/
structure Wired (create : Nat → Nat → Option (σ × Int)) (size : Nat) (c : Nat → Int) (total : Nat)
    (lab : Nat → List Nat) (rest : List (Nat × Int)) (skip : List Nat) (due : Nat)
    (b : Build σ) : Prop where
  links : Links size lab b
  ports : Ports size b
  served : Served size c (rest ++ b.requested) skip b
  created : ∀ n < b.calls, ∃ i, (create n i).isSome
  budget : b.calls + due + load size c lab (rest ++ b.requested) = total

/-- Instances keep their labels and ports keep their instances. -/
structure Grows (lab : Nat → List Nat) (b : Build σ) (lab' : Nat → List Nat) (b' : Build σ) :
    Prop where
  modules : b.modules.length ≤ b'.modules.length
  labels : ∀ x < b.modules.length, lab' x = lab x
  wireEntries : b.wireEntries <+: b'.wireEntries

theorem Grows.refl (lab : Nat → List Nat) (b : Build σ) : Grows lab b lab b :=
  ⟨Nat.le_refl _, fun _ _ => rfl, List.prefix_refl _⟩

theorem Grows.trans {lab₁ lab₂ lab₃ : Nat → List Nat} {b₁ b₂ b₃ : Build σ}
    (h : Grows lab₁ b₁ lab₂ b₂) (h' : Grows lab₂ b₂ lab₃ b₃) : Grows lab₁ b₁ lab₃ b₃ :=
  ⟨Nat.le_trans h.modules h'.modules,
    fun x hx => (h'.labels x (Nat.lt_of_lt_of_le hx h.modules)).trans (h.labels x hx),
    h.wireEntries.trans h'.wireEntries⟩

/-- The first port added on the way to `b'` belongs to an instance with this path. -/
def FirstPort (b : Build σ) (path : List Nat) (lab' : Nat → List Nat) (b' : Build σ) : Prop :=
  ∃ x < b'.modules.length, b.wireEntries ++ [some x] <+: b'.wireEntries ∧ lab' x = path

theorem FirstPort.mono {path : List Nat} {lab₂ lab₃ : Nat → List Nat} {b₁ b₂ b₃ : Build σ}
    (h : FirstPort b₁ path lab₂ b₂) (h' : Grows lab₂ b₂ lab₃ b₃) : FirstPort b₁ path lab₃ b₃ := by
  obtain ⟨x, hx, hwire, hlab⟩ := h
  exact ⟨x, Nat.lt_of_lt_of_le hx h'.modules, hwire.trans h'.wireEntries,
    (h'.labels x hx).trans hlab⟩

/-- The requests made on the way to `b'` come from instances below `depth`. -/
def RequestsBelow (depth : Nat) (b : Build σ) (lab' : Nat → List Nat) (b' : Build σ) : Prop :=
  ∀ r ∈ b'.requested, r ∈ b.requested ∨ depth < (lab' r.1).length

theorem RequestsBelow.trans {depth : Nat} {lab₂ lab₃ : Nat → List Nat} {b₁ b₂ b₃ : Build σ}
    (h : RequestsBelow depth b₁ lab₂ b₂) (hgrow : Grows lab₂ b₂ lab₃ b₃)
    (hkey : ∀ r ∈ b₂.requested, r.1 < b₂.modules.length)
    (h' : RequestsBelow depth b₂ lab₃ b₃) : RequestsBelow depth b₁ lab₃ b₃ := by
  intro r hr
  rcases h' r hr with hmid | hnew
  · rw [hgrow.labels _ (hkey r hmid)]
    exact h r hmid
  · exact Or.inr hnew

/-- Some call within the budget fails. -/
def FailsWithin (create : Nat → Nat → Option (σ × Int)) (size total : Nat) : Prop :=
  ∃ n < total, ∃ i < size, create n i = none

/-- The instance whose request is being served, with its first `k` outputs connected. -/
structure Serving (mod mc count k : Nat) (b : Build σ) (m : Module σ) : Prop where
  parent : b.modules[mod]? = some m
  index : m.cfgIdx = mc
  length : m.near.length = 2 + count
  connected : Connected m k
  free : ∀ out, k < out → out < 2 + count → m.near[out]? = some none

variable {total mod mc count : Nat} {rest : List (Nat × Int)} {m : Module σ}

theorem le_subtree (c : Nat → Int) (d j : Nat) : d ≤ subtree c d j := by
  induction d generalizing j with
  | zero => exact Nat.zero_le _
  | succ d ih =>
      have := ih (j + 1)
      rw [subtree, Nat.add_mul, Nat.one_mul]
      omega

theorem Served.key_lt {todo : List (Nat × Int)} {skip : List Nat}
    (hs : Served size c todo skip b) {r : Nat × Int} (hr : r ∈ todo) : r.1 < b.modules.length := by
  obtain ⟨m, hm, -⟩ := hs.waiting r.1 r.2 hr
  exact (List.getElem?_eq_some_iff.mp hm).1

/-- The parent of a copy that was attached has one output more. -/
theorem Serving.attach {k : Nat} (hs : Serving mod mc count k b m)
    (hatt : Attached create c mod (mc + 1) (size - (mc + 1)) (1 + k) b b')
    (hfits : Fits size mod (mc + 1) (size - (mc + 1)) (1 + k) m b) :
    Serving mod mc count (k + 1) b'
      { m with near := m.near.set (1 + k) (some b.modules.length) } where
  parent := hatt.parent m hs.parent
  index := hs.index
  length := by rw [List.length_set, hs.length]
  connected out hout hle := by
    by_cases heq : out = 1 + k
    · subst heq
      exact ⟨_, hfits.output_set⟩
    · rw [List.getElem?_set_ne (Ne.symm heq)]
      exact hs.connected out hout (by omega)
  free out hgt hlt := by
    rw [List.getElem?_set_ne (by omega)]
    exact hs.free out (by omega) hlt

/-- A copy uses up what its subtree was due. -/
theorem Wired.attach {r k : Nat}
    (h : Wired create size c total lab rest [mod]
      ((r + 1) * subtree c (size - (mc + 1)) (mc + 1)) b)
    (hmod : mod ∉ (rest ++ b.requested).map Prod.fst) (hs : Serving mod mc count k b m)
    (hatt : Attached create c mod (mc + 1) (size - (mc + 1)) (1 + k) b b')
    (hfits : Fits size mod (mc + 1) (size - (mc + 1)) (1 + k) m b) :
    Wired create size c total (attachLab lab b.modules.length mod (1 + k)) rest [mod]
      (r * subtree c (size - (mc + 1)) (mc + 1)) b' := by
  have htodo : rest ++ b'.requested = (rest ++ b.requested) ++
      newRequests c b.modules.length (mc + 1) (size - (mc + 1)) := by
    rw [hatt.requested, List.append_assoc]
  have hlabmod : (lab mod).length = mc := by
    rw [← (h.links.cfg mod m hs.parent).1, hs.index]
  have hload : size - (mc + 1) + load size c (attachLab lab b.modules.length mod (1 + k))
      (newRequests c b.modules.length (mc + 1) (size - (mc + 1))) =
      subtree c (size - (mc + 1)) (mc + 1) := by
    apply load_newRequests hfits.total
    intro u _
    rw [attachLab_new]
    simp only [List.length_append, List.length_replicate, List.length_cons]
    omega
  have hold : load size c (attachLab lab b.modules.length mod (1 + k)) (rest ++ b.requested) =
      load size c lab (rest ++ b.requested) :=
    load_congr fun r hr => attachLab_old (h.served.key_lt hr)
  have hbudget := h.budget
  rw [Nat.add_mul, Nat.one_mul] at hbudget
  refine ⟨h.links.attach hatt hfits, h.ports.attach hatt hfits, ?_, ?_, ?_⟩
  · rw [htodo]
    exact h.served.attach hatt hfits hmod
  · intro n hn
    rw [hatt.calls] at hn
    rcases Nat.lt_or_ge n b.calls with hold | hnew
    · exact h.created n hold
    · have hcall := hatt.created (n - b.calls) (by omega)
      rw [Nat.add_sub_cancel' hnew] at hcall
      exact ⟨_, hcall⟩
  · rw [htodo, load_append, hatt.calls, hold]
    omega

/-- The requests of the new instances are theirs, not those of the parent. -/
theorem Attached.not_requested {j d k : Nat} (hatt : Attached create c mod j d k b b')
    (hlt : mod < b.modules.length) (hmod : mod ∉ (rest ++ b.requested).map Prod.fst) :
    mod ∉ (rest ++ b'.requested).map Prod.fst := by
  rw [hatt.requested, ← List.append_assoc, List.map_append, List.mem_append, not_or]
  refine ⟨hmod, fun hmem => ?_⟩
  obtain ⟨⟨x, count⟩, hx, rfl⟩ := List.mem_map.mp hmem
  obtain ⟨u, -, hxu, -⟩ := mem_newRequests.mp hx
  simp only at hxu hlt
  omega

/-- The next output: either its copy is attached, and the new port has the path through
this output, or a call within the budget fails. -/
theorem Wired.addOutput {r k : Nat} (hreq : Requests create c) (hmc : mc + 1 < size)
    (h : Wired create size c total lab rest [mod]
      ((r + 1) * subtree c (size - (mc + 1)) (mc + 1)) b)
    (hmod : mod ∉ (rest ++ b.requested).map Prod.fst) (hs : Serving mod mc count k b m)
    (hk : 1 ≤ k) (hle : k ≤ count) :
    match addOutput create size mod mc b k with
    | .ok b' => ∃ lab' m', Grows lab b lab' b' ∧
        Wired create size c total lab' rest [mod]
          (r * subtree c (size - (mc + 1)) (mc + 1)) b' ∧
        mod ∉ (rest ++ b'.requested).map Prod.fst ∧ Serving mod mc count (k + 1) b' m' ∧
        RequestsBelow mc b lab' b' ∧
        FirstPort b (List.replicate (size - (mc + 1) - 1) 1 ++ (1 + k) :: lab mod) lab' b'
    | .error _ => FailsWithin create size total := by
  have hindex := hs.index
  have hlt := (List.getElem?_eq_some_iff.mp hs.parent).1
  have hspec := addOutput_spec hreq hlt hmc h.ports.length k
  cases hadd : Pipeline.addOutput create size mod mc b k with
  | error e =>
      rw [hadd] at hspec
      obtain ⟨u, hu, hnone⟩ := hspec
      have hbudget := h.budget
      have hsub := le_subtree c (size - (mc + 1)) (mc + 1)
      rw [Nat.add_mul, Nat.one_mul] at hbudget
      exact ⟨b.calls + u, by omega, mc + 1 + u, by omega, hnone⟩
  | ok b' =>
      rw [hadd] at hspec
      have hatt : Attached create c mod (mc + 1) (size - (mc + 1)) (1 + k) b b' := hspec
      have hfits : Fits size mod (mc + 1) (size - (mc + 1)) (1 + k) m b :=
        ⟨hs.parent, by omega, by omega, by omega, by omega, hs.free _ (by omega) (by omega)⟩
      have hlabmod : (lab mod).length = mc := by
        rw [← (h.links.cfg mod m hs.parent).1, hindex]
      refine ⟨attachLab lab b.modules.length mod (1 + k), _, ?_, h.attach hmod hs hatt hfits,
        hatt.not_requested hlt hmod, hs.attach hatt hfits, ?_, ?_⟩
      · refine ⟨by rw [hatt.length]; omega, fun x hx => attachLab_old hx, ?_⟩
        rw [hatt.wireEntries]
        exact List.prefix_append _ _
      · intro r hr
        rw [hatt.requested] at hr
        rcases List.mem_append.mp hr with hr | hr
        · exact Or.inl hr
        · obtain ⟨u, -, hxu, -⟩ := mem_newRequests.mp hr
          apply Or.inr
          rw [hxu, attachLab_new]
          simp only [List.length_append, List.length_replicate, List.length_cons]
          omega
      · have hlast : b.modules.length + (size - (mc + 1)) - 1 =
            b.modules.length + (size - (mc + 1) - 1) := by omega
        have hwire : b'.wireEntries = b.wireEntries ++
            [some (b.modules.length + (size - (mc + 1) - 1))] := by
          rw [hatt.wireEntries, hlast]
        exact ⟨b.modules.length + (size - (mc + 1) - 1), by rw [hatt.length]; omega,
          hwire ▸ List.prefix_refl _, attachLab_new ..⟩

/-- The loop over `k`. -/
theorem Wired.addOutputs (hreq : Requests create c) (hmc : mc + 1 < size) (r : Nat) :
    ∀ {k : Nat} {lab : Nat → List Nat} {b : Build σ} {m : Module σ},
    Wired create size c total lab rest [mod] (r * subtree c (size - (mc + 1)) (mc + 1)) b →
    mod ∉ (rest ++ b.requested).map Prod.fst → Serving mod mc count k b m → 1 ≤ k →
    k + r = count + 1 →
    match (List.range' k r).foldlM (Pipeline.addOutput create size mod mc) b with
    | .ok b' => ∃ lab' m', Grows lab b lab' b' ∧
        Wired create size c total lab' rest [mod] 0 b' ∧
        mod ∉ (rest ++ b'.requested).map Prod.fst ∧ Serving mod mc count (count + 1) b' m' ∧
        RequestsBelow mc b lab' b' ∧
        (0 < r →
          FirstPort b (List.replicate (size - (mc + 1) - 1) 1 ++ (1 + k) :: lab mod) lab' b')
    | .error _ => FailsWithin create size total := by
  induction r with
  | zero =>
      intro k lab b m h hmod hs _ hcount
      obtain rfl : k = count + 1 := hcount
      rw [Nat.zero_mul] at h
      exact ⟨lab, m, Grows.refl lab b, h, hmod, hs, fun _ hr => Or.inl hr,
        fun hpos => absurd hpos (Nat.lt_irrefl 0)⟩
  | succ r ih =>
      intro k lab b m h hmod hs hk hcount
      have hstep := h.addOutput hreq hmc hmod hs hk (by omega)
      rw [List.range'_succ, List.foldlM_cons]
      cases hadd : Pipeline.addOutput create size mod mc b k with
      | error e =>
          rw [hadd] at hstep
          exact hstep
      | ok b₁ =>
          rw [hadd] at hstep
          obtain ⟨lab₁, m₁, hgrow, hwired, hmod₁, hs₁, hbelow, hport⟩ := hstep
          have hrest := ih hwired hmod₁ hs₁ (by omega) (by omega)
          change match (List.range' (k + 1) r).foldlM (Pipeline.addOutput create size mod mc) b₁ with
            | .ok b' => _
            | .error _ => _
          cases hloop : (List.range' (k + 1) r).foldlM
              (Pipeline.addOutput create size mod mc) b₁ with
          | error e =>
              rw [hloop] at hrest
              exact hrest
          | ok b' =>
              rw [hloop] at hrest
              obtain ⟨lab', m', hgrow', hwired', hmod', hs', hbelow', -⟩ := hrest
              exact ⟨lab', m', hgrow.trans hgrow', hwired', hmod', hs',
                hbelow.trans hgrow' (fun r hr => hwired.served.key_lt
                  (List.mem_append_right _ hr)) hbelow', fun _ => hport.mono hgrow'⟩

theorem resize_self (n : Nat) (hm : b.modules[mod]? = some m) (htwo : m.near.length = 2) :
    (b.resizeNear mod (2 + n)).modules[mod]? =
      some { m with near := m.near ++ List.replicate n none } := by
  rw [Build.resizeNear, List.getElem?_modify_eq, hm]
  simp only [Option.map_eq_map, Option.map_some, htwo, Nat.add_sub_cancel_left]
  rw [List.take_of_length_le (by omega)]

/-- Resizing `near` of an instance with two neighbours adds empty outputs only. -/
theorem resize_cases {n x : Nat} {m' : Module σ} (hm : b.modules[mod]? = some m)
    (htwo : m.near.length = 2) (hx : (b.resizeNear mod (2 + n)).modules[x]? = some m') :
    (x ≠ mod ∧ b.modules[x]? = some m') ∨
      (x = mod ∧ m' = { m with near := m.near ++ List.replicate n none }) := by
  by_cases hxm : x = mod
  · subst hxm
    exact Or.inr ⟨rfl, Option.some.inj (hx.symm.trans (resize_self n hm htwo))⟩
  · rw [Build.resizeNear, List.getElem?_modify_ne _ _ (Ne.symm hxm)] at hx
    exact Or.inl ⟨hxm, hx⟩

/-- A neighbour after the resize was one before. -/
theorem near_resize {near : List (Option Nat)} {n out q : Nat}
    (h : (near ++ List.replicate n none)[out]? = some (some q)) : near[out]? = some (some q) := by
  rcases Nat.lt_or_ge out near.length with hlt | hge
  · rwa [List.getElem?_append_left hlt] at h
  · rw [List.getElem?_append_right hge] at h
    have := List.eq_of_mem_replicate (List.mem_of_getElem? h)
    cases this

theorem resize_survives {n x : Nat} {m' : Module σ} (hm : b.modules[mod]? = some m)
    (htwo : m.near.length = 2) (hx : b.modules[x]? = some m') :
    ∃ m'' : Module σ, (b.resizeNear mod (2 + n)).modules[x]? = some m'' ∧ m''.cfgIdx = m'.cfgIdx ∧
      m''.wireDst = m'.wireDst ∧ ∀ (out : Nat) e, m'.near[out]? = some e → m''.near[out]? = some e := by
  by_cases hxm : x = mod
  · subst hxm
    obtain rfl := Option.some.inj (hm.symm.trans hx)
    refine ⟨_, resize_self n hm htwo, rfl, rfl, ?_⟩
    intro out e hout
    rw [List.getElem?_append_left (List.getElem?_eq_some_iff.mp hout).1, hout]
  · refine ⟨m', ?_, rfl, rfl, fun _ _ h => h⟩
    rw [Build.resizeNear, List.getElem?_modify_ne _ _ (Ne.symm hxm), hx]

theorem Links.resize {n : Nat} (h : Links size lab b) (hm : b.modules[mod]? = some m)
    (htwo : m.near.length = 2) : Links size lab (b.resizeNear mod (2 + n)) := by
  constructor
  case base =>
    obtain ⟨m', hm', hzero⟩ := h.base
    obtain ⟨m'', hm'', hcfg, -⟩ := resize_survives (n := n) hm htwo hm'
    exact ⟨m'', hm'', hcfg.trans hzero⟩
  case cfg =>
    intro x m' hx
    rcases resize_cases hm htwo hx with ⟨-, hx'⟩ | ⟨rfl, rfl⟩
    · exact h.cfg x m' hx'
    · have := h.cfg x m hm
      simp only [List.length_append]
      omega
  case root =>
    intro x m' hx hzero
    rcases resize_cases hm htwo hx with ⟨-, hx'⟩ | ⟨rfl, rfl⟩
    · exact h.root x m' hx' hzero
    · obtain ⟨h0, hnear⟩ := h.root x m hm hzero
      exact ⟨h0, by rw [List.getElem?_append_left (by omega), hnear]⟩
  case up =>
    intro x m' hx hne
    have hold : ∀ m'', b.modules[x]? = some m'' → m''.cfgIdx ≠ 0 →
        ∃ q mq out, m''.near[0]? = some (some q) ∧
          (b.resizeNear mod (2 + n)).modules[q]? = some mq ∧ 1 ≤ out ∧
          mq.near[out]? = some (some x) ∧ lab x = out :: lab q := by
      intro m'' hx' hne'
      obtain ⟨q, mq, out, hnear, hq, hout, hxq, hlab⟩ := h.up x m'' hx' hne'
      obtain ⟨mq', hq', -, -, hkeep⟩ := resize_survives (n := n) hm htwo hq
      exact ⟨q, mq', out, hnear, hq', hout, hkeep out _ hxq, hlab⟩
    rcases resize_cases hm htwo hx with ⟨-, hx'⟩ | ⟨rfl, rfl⟩
    · exact hold m' hx' hne
    · rw [List.getElem?_append_left (by omega)]
      exact hold m hm hne
  case down =>
    intro x m' out q hx hout hq
    have hold : ∃ m'', b.modules[x]? = some m'' ∧ m''.near[out]? = some (some q) := by
      rcases resize_cases hm htwo hx with ⟨-, hx'⟩ | ⟨rfl, rfl⟩
      · exact ⟨m', hx', hq⟩
      · exact ⟨m, hm, near_resize hq⟩
    obtain ⟨m'', hx', hq'⟩ := hold
    obtain ⟨hlab, mq, hmq, hnear⟩ := h.down x m'' out q hx' hout hq'
    obtain ⟨mq', hmq', -, -, hkeep⟩ := resize_survives (n := n) hm htwo hmq
    exact ⟨hlab, mq', hmq', hkeep 0 _ hnear⟩

theorem Ports.resize {n : Nat} (h : Ports size b) (hm : b.modules[mod]? = some m)
    (htwo : m.near.length = 2) (hcfg : m.cfgIdx + 1 < size) :
    Ports size (b.resizeNear mod (2 + n)) := by
  refine ⟨h.length, h.zero, ?_, ?_⟩
  · intro p hp hlt
    obtain ⟨x, m', hx, hm', hcfg', hdst⟩ := h.entry p hp hlt
    obtain ⟨m'', hm'', hcfg'', hdst', -⟩ := resize_survives (n := n) hm htwo hm'
    exact ⟨x, m'', hx, hm'', by rw [hcfg'', hcfg'], by rw [hdst', hdst]⟩
  · intro x m' hx hlast
    rcases resize_cases hm htwo hx with ⟨-, hx'⟩ | ⟨rfl, rfl⟩
    · exact h.last x m' hx' hlast
    · simp only at hlast
      omega

/-- Dropping a request whose instance needs no more outputs. -/
theorem Served.drop {req : Nat × Int} {todo : List (Nat × Int)} {skip : List Nat}
    (h : Served size c (req :: todo) skip b) : Served size c todo (req.1 :: skip) b := by
  refine ⟨(List.nodup_cons.mp h.nodup).2, fun x count hx => h.waiting x count
    (List.mem_cons_of_mem _ hx), ?_⟩
  intro x m hx hcfg hnot hskip
  rw [List.mem_cons, not_or] at hskip
  apply h.done x m hx hcfg _ hskip.2
  rw [List.map_cons, List.mem_cons, not_or]
  exact ⟨hskip.1, hnot⟩

theorem Served.resize {n : Nat} {todo : List (Nat × Int)} (h : Served size c todo [mod] b)
    (hm : b.modules[mod]? = some m) (htwo : m.near.length = 2)
    (hmod : mod ∉ todo.map Prod.fst) : Served size c todo [mod] (b.resizeNear mod (2 + n)) := by
  refine ⟨h.nodup, ?_, ?_⟩
  · intro x count hx
    obtain ⟨m', hm', hrest⟩ := h.waiting x count hx
    have hne : x ≠ mod := fun heq => hmod (heq ▸ List.mem_map_of_mem hx)
    exact ⟨m', by rw [Build.resizeNear, List.getElem?_modify_ne _ _ (Ne.symm hne), hm'], hrest⟩
  · intro x m' hx hcfg hnot hskip
    rcases resize_cases hm htwo hx with ⟨-, hx'⟩ | ⟨rfl, -⟩
    · exact h.done x m' hx' hcfg hnot hskip
    · exact absurd (List.mem_singleton.mpr rfl) hskip

/-- An instance with all its outputs connected need not be skipped. -/
theorem Served.finish {todo : List (Nat × Int)} (h : Served size c todo [mod] b)
    (hs : Serving mod mc (c mc).toNat ((c mc).toNat + 1) b m) : Served size c todo [] b := by
  refine ⟨h.nodup, h.waiting, ?_⟩
  intro x m' hx hcfg hnot _
  by_cases hxm : x = mod
  · subst hxm
    obtain rfl := Option.some.inj (hs.parent.symm.trans hx)
    rw [hs.index, Nat.add_comm 1]
    exact ⟨hs.length, hs.connected⟩
  · exact h.done x m' hx hcfg hnot (by simpa using hxm)

/-- A request of an instance of the last module needs nothing. -/
theorem Wired.skip {req : Nat × Int} (h : Wired create size c total lab (req :: rest) [] 0 b)
    (hlast : ¬(lab req.1).length + 1 < size) : Wired create size c total lab rest [] 0 b := by
  obtain ⟨m, hm, -⟩ := h.served.waiting req.1 req.2 (by simp)
  have hlab := (h.links.cfg req.1 m hm).1
  have hdrop : Served size c (rest ++ b.requested) [req.1] b := h.served.drop
  have hbudget := h.budget
  rw [List.cons_append, load, List.map_cons, List.sum_cons, ← load, weight,
    Nat.sub_eq_zero_of_le (Nat.not_lt.mp hlast), subtree, Nat.mul_zero] at hbudget
  refine ⟨h.links, h.ports, ⟨hdrop.nodup, hdrop.waiting, ?_⟩, h.created, by omega⟩
  intro x m' hx hcfg hnot _
  apply hdrop.done x m' hx hcfg hnot
  rw [List.mem_singleton]
  rintro rfl
  obtain rfl := Option.some.inj (hm.symm.trans hx)
  omega

/-- One request: the module is the last one and nothing happens, or all its outputs are
connected, or a call within the budget fails. -/
theorem Wired.serveRequest (hreq : Requests create c) {req : Nat × Int}
    (h : Wired create size c total lab (req :: rest) [] 0 b) :
    match serveRequest create size b req with
    | .ok b' => ∃ lab', Grows lab b lab' b' ∧ Wired create size c total lab' rest [] 0 b' ∧
        RequestsBelow (lab req.1).length b lab' b' ∧
        ((lab req.1).length + 1 < size → FirstPort b
          (List.replicate (size - ((lab req.1).length + 1) - 1) 1 ++ 2 :: lab req.1) lab' b')
    | .error _ => FailsWithin create size total := by
  obtain ⟨mod, count⟩ := req
  obtain ⟨m, hm, hcount, hpos, htwo, hconn⟩ := h.served.waiting mod count (by simp)
  have hlab := (h.links.cfg mod m hm).1
  have hdrop : Served size c (rest ++ b.requested) [mod] b := h.served.drop
  have hmod : mod ∉ (rest ++ b.requested).map Prod.fst := (List.nodup_cons.mp h.served.nodup).1
  have hbudget := h.budget
  rw [List.cons_append, load, List.map_cons, List.sum_cons, ← load, weight] at hbudget
  simp only [← hlab] at hbudget ⊢
  simp only [Pipeline.serveRequest, hm]
  by_cases hlast : m.cfgIdx + 1 ≥ size
  · rw [if_pos hlast]
    exact ⟨lab, Grows.refl lab b, h.skip (by rw [← hlab]; exact Nat.not_lt.mpr hlast),
      fun _ hr => Or.inl hr, fun hlt => absurd hlt (by omega)⟩
  · rw [if_neg hlast]
    have hmc : m.cfgIdx + 1 < size := by omega
    obtain rfl : count = c m.cfgIdx := hcount
    have hwired : Wired create size c total lab rest [mod] ((c m.cfgIdx).toNat *
        subtree c (size - (m.cfgIdx + 1)) (m.cfgIdx + 1))
        (b.resizeNear mod (2 + (c m.cfgIdx).toNat)) := by
      refine ⟨h.links.resize hm htwo, h.ports.resize hm htwo hmc,
        hdrop.resize hm htwo hmod, h.created, ?_⟩
      change b.calls + _ + load size c lab (rest ++ b.requested) = total
      omega
    have hserving : Serving mod m.cfgIdx (c m.cfgIdx).toNat 1
        (b.resizeNear mod (2 + (c m.cfgIdx).toNat))
        { m with near := m.near ++ List.replicate (c m.cfgIdx).toNat none } := by
      refine ⟨resize_self _ hm htwo, rfl, ?_, ?_, ?_⟩
      · rw [List.length_append, htwo, List.length_replicate]
      · intro out hout hle
        obtain ⟨q, hq⟩ := hconn hmc out hout hle
        refine ⟨q, ?_⟩
        rw [List.getElem?_append_left (by omega), hq]
      · intro out hgt hlt
        rw [List.getElem?_append_right (by omega), List.getElem?_replicate, if_pos (by omega)]
    have hloop := Wired.addOutputs hreq hmc (c m.cfgIdx).toNat hwired hmod hserving
      (Nat.le_refl 1) (Nat.add_comm 1 _)
    cases hrun : (List.range' 1 (c m.cfgIdx).toNat).foldlM
        (Pipeline.addOutput create size mod m.cfgIdx)
        (b.resizeNear mod (2 + (c m.cfgIdx).toNat)) with
    | error e =>
        rw [hrun] at hloop
        exact hloop
    | ok b' =>
        rw [hrun] at hloop
        obtain ⟨lab', m', hgrow, hw, -, hs, hbelow, hport⟩ := hloop
        refine ⟨lab', ⟨?_, ?_, hgrow.wireEntries⟩,
          ⟨hw.links, hw.ports, hw.served.finish hs, hw.created, hw.budget⟩, hbelow,
          fun _ => hport (by omega)⟩
        · have := hgrow.modules
          rwa [Build.resizeNear, List.length_modify] at this
        · intro x hx
          apply hgrow.labels x
          rwa [Build.resizeNear, List.length_modify]

/-! ## The rounds -/

/-- The path of the port that the first request of a round adds. -/
def firstPath (size : Nat) (path : List Nat) : List Nat :=
  List.replicate (size - (path.length + 1) - 1) 1 ++ 2 :: path

/-- The loop over `pending`. -/
theorem Wired.servePending (hreq : Requests create c) {r : Nat} (rest : List (Nat × Int)) :
    ∀ {lab : Nat → List Nat} {b : Build σ}, Wired create size c total lab rest [] 0 b →
    (∀ req ∈ rest, r ≤ (lab req.1).length) →
    match rest.foldlM (Pipeline.serveRequest create size) b with
    | .ok b' => ∃ lab', Grows lab b lab' b' ∧ Wired create size c total lab' [] [] 0 b' ∧
        RequestsBelow r b lab' b' ∧
        ∀ req, rest.head? = some req → (lab req.1).length + 1 < size →
          FirstPort b (firstPath size (lab req.1)) lab' b'
    | .error _ => FailsWithin create size total := by
  induction rest with
  | nil =>
      intro lab b h _
      exact ⟨lab, Grows.refl lab b, h, fun _ hr => Or.inl hr, by simp⟩
  | cons req rest ih =>
      intro lab b h hdeep
      have hstep := h.serveRequest hreq
      rw [List.foldlM_cons]
      cases hserve : Pipeline.serveRequest create size b req with
      | error e =>
          rw [hserve] at hstep
          exact hstep
      | ok b₁ =>
          rw [hserve] at hstep
          obtain ⟨lab₁, hgrow, hwired, hbelow, hport⟩ := hstep
          have hdeep₁ : ∀ req ∈ rest, r ≤ (lab₁ req.1).length := by
            intro req' hreq'
            rw [hgrow.labels _ (h.served.key_lt (by simp [hreq']))]
            exact hdeep req' (List.mem_cons_of_mem _ hreq')
          have hloop := ih hwired hdeep₁
          change match rest.foldlM (Pipeline.serveRequest create size) b₁ with
            | .ok b' => _
            | .error _ => _
          cases hrun : rest.foldlM (Pipeline.serveRequest create size) b₁ with
          | error e =>
              rw [hrun] at hloop
              exact hloop
          | ok b' =>
              rw [hrun] at hloop
              obtain ⟨lab', hgrow', hwired', hbelow', -⟩ := hloop
              refine ⟨lab', hgrow.trans hgrow', hwired', ?_, ?_⟩
              · refine RequestsBelow.trans ?_ hgrow' (fun r hr => hwired.served.key_lt
                  (List.mem_append_right _ hr)) hbelow'
                intro x hx
                have := hdeep req List.mem_cons_self
                exact (hbelow x hx).imp_right (by omega)
              · intro req' heq hlt
                obtain rfl := Option.some.inj heq
                exact (hport hlt).mono hgrow'

variable {order : Nat → List (Nat × Int) → List (Nat × Int)}

/-- The iteration order of a map is some permutation of its entries. -/
def IsOrder (order : Nat → List (Nat × Int) → List (Nat × Int)) : Prop :=
  ∀ r l, (order r l).Perm l

/-- The requests of a round, in the order of the map. -/
theorem Wired.startRound (horder : IsOrder order) (r : Nat)
    (h : Wired create size c total lab [] [] 0 b) :
    Wired create size c total lab (order r b.requested) [] 0 { b with requested := [] } := by
  have hperm := horder r b.requested
  have hserved := h.served
  have hbudget := h.budget
  rw [List.nil_append] at hserved hbudget
  refine ⟨⟨h.links.base, h.links.cfg, h.links.root, h.links.up, h.links.down⟩,
    ⟨h.ports.length, h.ports.zero, h.ports.entry, h.ports.last⟩, ?_, h.created, ?_⟩
  · rw [List.append_nil]
    refine ⟨(hperm.map _).nodup_iff.mpr hserved.nodup, ?_, ?_⟩
    · intro x count hx
      exact hserved.waiting x count (hperm.mem_iff.mp hx)
    · intro x m hx hcfg hnot hskip
      exact hserved.done x m hx hcfg (fun hmem => hnot ((hperm.map _).mem_iff.mpr hmem)) hskip
  · rw [List.append_nil, load, (hperm.map _).sum_eq, ← load]
    exact hbudget

/-- The rounds of phase 2 end by themselves, with every output connected, or at a call
within the budget that failed. -/
theorem Wired.rounds (hreq : Requests create c) (horder : IsOrder order) (fuel : Nat) :
    ∀ {r : Nat} {lab : Nat → List Nat} {b : Build σ}, Wired create size c total lab [] [] 0 b →
    (∀ req ∈ b.requested, r ≤ (lab req.1).length) → size ≤ r + fuel →
    match rounds create size order fuel r b with
    | .ok b' => ∃ lab', Grows lab b lab' b' ∧ Wired create size c total lab' [] [] 0 b' ∧
        b'.requested = [] ∧
        ∀ req, (order r b.requested).head? = some req → (lab req.1).length + 1 < size →
          FirstPort b (firstPath size (lab req.1)) lab' b'
    | .error _ => FailsWithin create size total := by
  have hnone : ∀ {r : Nat} {b : Build σ}, b.requested = [] →
      (order r b.requested).head? = none := by
    intro r b hnil
    have hperm := horder r b.requested
    rw [hnil] at hperm ⊢
    rw [List.perm_nil.mp hperm]
    rfl
  induction fuel with
  | zero =>
      intro r lab b h hdeep hsize
      have hnil : b.requested = [] := by
        by_contra hne
        obtain ⟨req, hmem⟩ := List.exists_mem_of_ne_nil _ hne
        obtain ⟨m, hm, -⟩ := h.served.waiting req.1 req.2 hmem
        have := h.links.cfg req.1 m hm
        have := hdeep req hmem
        omega
      exact ⟨lab, Grows.refl lab b, h, hnil, by simp [hnone hnil]⟩
  | succ fuel ih =>
      intro r lab b h hdeep hsize
      rw [Pipeline.rounds]
      by_cases hnil : b.requested = []
      · rw [if_pos hnil]
        exact ⟨lab, Grows.refl lab b, h, hnil, by simp [hnone hnil]⟩
      · rw [if_neg hnil]
        have hround := Wired.servePending hreq (r := r) _ (h.startRound horder r)
          (fun req hmem => hdeep req ((horder r b.requested).mem_iff.mp hmem))
        cases hrun : (order r b.requested).foldlM (Pipeline.serveRequest create size)
            { b with requested := [] } with
        | error e =>
            rw [hrun] at hround
            exact hround
        | ok b₁ =>
            rw [hrun] at hround
            obtain ⟨lab₁, hgrow, hwired, hbelow, hport⟩ := hround
            have hloop := ih (r := r + 1) hwired
              (fun req hmem => (hbelow req hmem).resolve_left (by simp)) (by omega)
            simp only
            cases hrest : Pipeline.rounds create size order fuel (r + 1) b₁ with
            | error e =>
                rw [hrest] at hloop
                exact hloop
            | ok b' =>
                rw [hrest] at hloop
                obtain ⟨lab', hgrow', hwired', hdone, -⟩ := hloop
                have hgrow₀ : Grows lab b lab₁ b₁ :=
                  ⟨hgrow.modules, hgrow.labels, hgrow.wireEntries⟩
                refine ⟨lab', hgrow₀.trans hgrow', hwired', hdone, ?_⟩
                intro req hhead hlt
                exact (hport req hhead hlt).mono hgrow'

/-! ## The main chain -/

/-- Phase 1 after `t` modules. -/
structure Main (create : Nat → Nat → Option (σ × Int)) (c : Nat → Int) (t : Nat) (b : Build σ) :
    Prop where
  length : b.modules.length = t
  modules : ∀ i < t, ∃ ctx, b.modules[i]? = some { cfgIdx := i, ctx := ctx }
  requested : b.requested = newRequests c 0 0 t
  calls : b.calls = t
  created : ∀ n < t, (create n n).isSome
  nextPort : b.nextPort = 2

theorem addModules_spec (hreq : Requests create c) (d : Nat) : ∀ {t : Nat} {b : Build σ},
    Main create c t b →
    match (List.range' t d).foldlM (addModule create) b with
    | .ok b' => Main create c (t + d) b'
    | .error _ => ∃ n < t + d, create n n = none := by
  induction d with
  | zero =>
      intro t b h
      exact h
  | succ d ih =>
      intro t b h
      rw [List.range'_succ, List.foldlM_cons]
      cases hadd : addModule create b t with
      | error e =>
          refine ⟨t, by omega, ?_⟩
          have hnone := addModule_error hadd
          rwa [h.calls] at hnone
      | ok b₁ =>
          obtain ⟨ctx, hcreate, rfl⟩ := addModule_ok hreq hadd
          rw [h.calls] at hcreate
          rw [← Nat.add_assoc, Nat.add_right_comm]
          apply ih
          refine ⟨?_, ?_, ?_, ?_, ?_, h.nextPort⟩
          · rw [List.length_append, h.length, List.length_singleton]
          · intro i hi
            rcases Nat.lt_succ_iff_lt_or_eq.mp hi with hi | rfl
            · obtain ⟨ctx', hctx⟩ := h.modules i hi
              exact ⟨ctx', by rw [List.getElem?_append_left (by rw [h.length]; exact hi), hctx]⟩
            · refine ⟨ctx, ?_⟩
              have hlen := h.length
              rw [List.getElem?_append_right (by omega), hlen, Nat.sub_self]
              rfl
          · rw [newRequests_succ, Nat.zero_add, ← h.requested, requestOutputs_append, h.length]
          · rw [h.calls]
          · intro n hn
            rcases Nat.lt_succ_iff_lt_or_eq.mp hn with hn | rfl
            · exact h.created n hn
            · rw [hcreate]
              rfl

/-- Phase 1 creates one instance of each module, or ends at a call that failed. -/
theorem mainChain_spec (size : Nat) (hreq : Requests create c) :
    match mainChain create size with
    | .ok b => Main create c size b
    | .error _ => ∃ n < size, create n n = none := by
  have hinit : Main create c 0 ({} : Build σ) := ⟨rfl, by simp, rfl, rfl, by simp, rfl⟩
  have h := addModules_spec hreq size hinit
  rw [Nat.zero_add, ← List.range_eq_range'] at h
  exact h

/-- The instances of the main chain with their links. -/
theorem linkMain_modules (h : Main create c size b) {i : Nat} (hi : i < size) :
    ∃ ctx, (linkMain b).modules[i]? = some
      { cfgIdx := i
        near := [if i > 0 then some (i - 1) else none, if i + 1 < size then some (i + 1) else none]
        wireDst := if i + 1 = size then 1 else if i = 0 then 0 else -1
        ctx := ctx } := by
  obtain ⟨ctx, hctx⟩ := h.modules i hi
  refine ⟨ctx, ?_⟩
  have hlen := h.length
  simp only [linkMain, Build.setWireDst, List.getElem?_modify, List.getElem?_mapIdx, hctx, hlen,
    Option.map_eq_map, Option.map_some]
  congr 1
  by_cases hlast : size - 1 = i
  · rw [if_pos hlast, if_pos (by omega : i + 1 = size)]
    split <;> rfl
  · rw [if_neg hlast, if_neg (by omega : ¬i + 1 = size)]
    by_cases hzero : 0 = i
    · rw [if_pos hzero, if_pos hzero.symm]
    · rw [if_neg hzero, if_neg (Ne.symm hzero)]

theorem linkMain_cases (h : Main create c size b) {i : Nat} {m : Module σ}
    (hi : (linkMain b).modules[i]? = some m) : i < size ∧ ∃ ctx, m =
      { cfgIdx := i
        near := [if i > 0 then some (i - 1) else none, if i + 1 < size then some (i + 1) else none]
        wireDst := if i + 1 = size then 1 else if i = 0 then 0 else -1
        ctx := ctx } := by
  have hlt : i < size := by
    have := (List.getElem?_eq_some_iff.mp hi).1
    simpa [linkMain, Build.setWireDst, h.length] using this
  obtain ⟨ctx, hctx⟩ := linkMain_modules h hlt
  exact ⟨hlt, ctx, Option.some.inj (hi.symm.trans hctx)⟩

theorem linkMain_links (h : Main create c size b) (hpos : 0 < size) :
    Links size (fun i => List.replicate i 1) (linkMain b) where
  base := by
    obtain ⟨ctx, hmod⟩ := linkMain_modules h hpos
    exact ⟨_, hmod, rfl⟩
  cfg x m hx := by
    obtain ⟨hlt, ctx, rfl⟩ := linkMain_cases h hx
    exact ⟨List.length_replicate.symm, hlt, Nat.le_refl 2⟩
  root x m hx hzero := by
    obtain ⟨hlt, ctx, rfl⟩ := linkMain_cases h hx
    obtain rfl : x = 0 := hzero
    exact ⟨rfl, rfl⟩
  up x m hx hne := by
    obtain ⟨hlt, ctx, rfl⟩ := linkMain_cases h hx
    simp only at hne
    obtain ⟨y, rfl⟩ := Nat.exists_eq_succ_of_ne_zero hne
    obtain ⟨ctx', hprev⟩ := linkMain_modules h (i := y) (by omega)
    refine ⟨y, _, 1, rfl, hprev, Nat.le_refl 1, ?_, rfl⟩
    rw [if_pos hlt]
    rfl
  down x m out q hx hout hq := by
    obtain ⟨hlt, ctx, rfl⟩ := linkMain_cases h hx
    obtain ⟨rfl, hnext⟩ : out = 1 ∧ x + 1 < size := by
      match out, hout with
      | 1, _ =>
          refine ⟨rfl, ?_⟩
          by_contra hcon
          simp [hcon] at hq
      | out + 2, _ => simp at hq
    rw [if_pos hnext] at hq
    obtain rfl := Option.some.inj (Option.some.inj hq)
    obtain ⟨ctx', hmod⟩ := linkMain_modules h hnext
    exact ⟨rfl, _, hmod, rfl⟩

theorem linkMain_ports (h : Main create c size b) (hpos : 0 < size) :
    Ports size (linkMain b) where
  length := by
    change 2 = b.nextPort
    rw [h.nextPort]
  zero := rfl
  entry p hp hlt := by
    change p < b.nextPort at hlt
    rw [h.nextPort] at hlt
    obtain rfl : p = 1 := by omega
    obtain ⟨ctx, hmod⟩ := linkMain_modules h (i := size - 1) (by omega)
    refine ⟨size - 1, _, by rw [← h.length]; rfl, hmod, by simp only; omega, ?_⟩
    simp only [Nat.sub_add_cancel hpos, if_true]
    rfl
  last x m hx hlast := by
    obtain ⟨hlt, ctx, rfl⟩ := linkMain_cases h hx
    simp only at hlast
    refine ⟨rfl, ?_, 1, Nat.le_refl 1, by simp only [if_pos hlast]; rfl, ?_⟩
    · rw [if_neg (show ¬x + 1 < size by omega)]
      rfl
    · have hlen := h.length
      change some (some (b.modules.length - 1)) = some (some x)
      congr 2
      omega

/-- Every module of the main chain that asked for outputs still waits for them. -/
theorem linkMain_served (h : Main create c size b) :
    Served size c (newRequests c 0 0 size) [] (linkMain b) where
  nodup := nodup_newRequests _ _ _ _
  waiting x count hx := by
    obtain ⟨u, hu, rfl, rfl, hc⟩ := mem_newRequests.mp hx
    obtain ⟨ctx, hmod⟩ := linkMain_modules h (i := 0 + u) (by omega)
    refine ⟨_, hmod, rfl, hc, rfl, ?_⟩
    intro hlt out hout hle
    obtain rfl : out = 1 := by omega
    simp only at hlt
    rw [if_pos hlt]
    exact ⟨_, rfl⟩
  done x m hx hcfg hnot _ := by
    obtain ⟨hlt, ctx, rfl⟩ := linkMain_cases h hx
    simp only at hcfg
    have hzero : (c x).toNat = 0 := by
      by_contra hc
      apply hnot
      refine List.mem_map.mpr ⟨(x, c x), mem_newRequests.mpr ⟨x, hlt, ?_⟩, rfl⟩
      rw [Nat.zero_add]
      exact ⟨rfl, rfl, by omega⟩
    simp only [hzero]
    refine ⟨rfl, ?_⟩
    intro out hout hle
    obtain rfl : out = 1 := by omega
    rw [if_pos hcfg]
    exact ⟨_, rfl⟩

/-- The main chain with its links starts phase 2. -/
theorem linkMain_wired (h : Main create c size b) (hpos : 0 < size) :
    Wired create size c (subtree c size 0) (fun i => List.replicate i 1) [] [] 0 (linkMain b) := by
  have hreqs : (linkMain b).requested = newRequests c 0 0 size := h.requested
  refine ⟨linkMain_links h hpos, linkMain_ports h hpos, ?_, ?_, ?_⟩
  · rw [List.nil_append, hreqs]
    exact linkMain_served h
  · intro n hn
    change n < b.calls at hn
    rw [h.calls] at hn
    exact ⟨n, h.created n hn⟩
  · rw [List.nil_append, hreqs]
    change b.calls + 0 + _ = _
    rw [h.calls, Nat.add_zero]
    apply load_newRequests (Nat.zero_add size)
    intro u _
    rw [Nat.zero_add, List.length_replicate]

/-! ## The result -/

/-- A finished chain: all links, ports and outputs are in place. -/
structure Built (create : Nat → Nat → Option (σ × Int)) (size : Nat) (c : Nat → Int)
    (lab : Nat → List Nat) (b : Build σ) : Prop where
  links : Links size lab b
  ports : Ports size b
  served : Served size c [] [] b
  created : ∀ n < subtree c size 0, ∃ i, (create n i).isSome
  main : ∀ i < size, (create i i).isSome
  mainLab : ∀ i < size, i < b.modules.length ∧ lab i = List.replicate i 1

/-- The first request that the first round serves gets the first port after the main
chain's. -/
def FirstRequest (size : Nat) (c : Nat → Int) (order : Nat → List (Nat × Int) → List (Nat × Int))
    (lab : Nat → List Nat) (b : Build σ) : Prop :=
  ∀ i count, (order 0 (newRequests c 0 0 size)).head? = some (i, count) → i + 1 < size →
    ∃ x, b.wireEntries[2]? = some (some x) ∧ lab x = firstPath size (List.replicate i 1)

/-- The constructor finishes the chain, or a call within the budget fails and it leaves
no instance. -/
theorem construct_spec (hreq : Requests create c) (horder : IsOrder order) (hpos : 0 < size) :
    (∃ lab b, construct create size order = b.finish ∧ Built create size c lab b ∧
      FirstRequest size c order lab b) ∨
    ((construct create size order).modules = [] ∧ FailsWithin create size (subtree c size 0)) := by
  have hmain := mainChain_spec size hreq
  simp only [construct]
  cases hrun : mainChain create size with
  | error e =>
      rw [hrun] at hmain
      obtain ⟨n, hn, hnone⟩ := hmain
      have := le_subtree c size 0
      exact Or.inr ⟨rfl, n, by omega, n, hn, hnone⟩
  | ok b =>
      rw [hrun] at hmain
      have hm : Main create c size b := hmain
      have hne : ¬b.modules = [] := by
        rw [← List.length_eq_zero_iff, hm.length]
        omega
      have hrounds := Wired.rounds hreq horder size (r := 0) (linkMain_wired hm hpos)
        (fun _ _ => Nat.zero_le _) (by omega)
      simp only [if_neg hne]
      cases hphase : rounds create size order size 0 (linkMain b) with
      | error e =>
          rw [hphase] at hrounds
          exact Or.inr ⟨rfl, hrounds⟩
      | ok b' =>
          rw [hphase] at hrounds
          obtain ⟨lab, hgrow, hwired, hdone, hport⟩ := hrounds
          have hserved := hwired.served
          have hbudget := hwired.budget
          rw [hdone, List.append_nil] at hserved hbudget
          refine Or.inl ⟨lab, b', rfl, ⟨hwired.links, hwired.ports, hserved, ?_, hm.created, ?_⟩, ?_⟩
          · intro n hn
            apply hwired.created n
            have hzero : load size c lab [] = 0 := rfl
            omega
          · intro i hi
            have hlen : (linkMain b).modules.length = size := by
              simp [linkMain, Build.setWireDst, hm.length]
            have hle := hgrow.modules
            exact ⟨by omega, hgrow.labels i (by omega)⟩
          · intro i count hhead hlt
            have hreqs : (linkMain b).requested = newRequests c 0 0 size := hm.requested
            rw [hreqs] at hport
            obtain ⟨x, -, hwire, hlab⟩ := hport (i, count) hhead
              (by simpa using hlt)
            obtain ⟨t, ht⟩ := hwire
            exact ⟨x, by rw [← ht]; rfl, hlab⟩

/-! ## The contexts -/

/-- Every instance has a context that `init` returned for its module. -/
def Created (create : Nat → Nat → Option (σ × Int)) (modules : List (Module σ)) : Prop :=
  ∀ m ∈ modules, ∃ call count, create call m.cfgIdx = some (m.ctx, count)

theorem Created.modify {modules : List (Module σ)} (h : Created create modules) (x : Nat)
    {f : Module σ → Module σ} (hf : ∀ m, (f m).cfgIdx = m.cfgIdx ∧ (f m).ctx = m.ctx) :
    Created create (modules.modify x f) := by
  intro m hm
  obtain ⟨y, hy⟩ := List.mem_iff_getElem?.mp hm
  rw [List.getElem?_modify] at hy
  obtain ⟨m', hm', heq⟩ := Option.map_eq_some_iff.mp hy
  obtain ⟨call, count, hcreate⟩ := h m' (List.mem_of_getElem? hm')
  refine ⟨call, count, ?_⟩
  rw [← heq]
  split
  · rw [(hf m').1, (hf m').2, hcreate]
  · exact hcreate

theorem Created.addModule {i : Nat} (h : Created create b.modules)
    (hadd : addModule create b i = .ok b') : Created create b'.modules := by
  simp only [Pipeline.addModule] at hadd
  cases hc : create b.calls i with
  | none => simp [hc] at hadd
  | some r =>
      simp only [hc] at hadd
      obtain rfl := Except.ok.inj hadd
      intro m hm
      rcases List.mem_append.mp hm with hm | hm
      · exact h m hm
      · rw [List.mem_singleton.mp hm]
        exact ⟨b.calls, r.2, hc⟩

theorem Created.setNear (h : Created create b.modules) (x pos : Nat) (q : Option Nat) :
    Created create (b.setNear x pos q).modules :=
  h.modify x (f := fun m => { m with near := m.near.set pos q }) fun _ => ⟨rfl, rfl⟩

theorem Created.setWireDst (h : Created create b.modules) (x : Nat) (port : Int) :
    Created create (b.setWireDst x port).modules :=
  h.modify x (f := fun m => { m with wireDst := port }) fun _ => ⟨rfl, rfl⟩

theorem Created.resizeNear (h : Created create b.modules) (x n : Nat) :
    Created create (b.resizeNear x n).modules :=
  h.modify x (f := fun m => { m with
    near := m.near.take n ++ List.replicate (n - m.near.length) none }) fun _ => ⟨rfl, rfl⟩

/-- What every round keeps, a loop without failure keeps. -/
theorem foldlM_ok_invariant {ε α β : Type*} {I : β → Prop} {f : β → α → Except ε β}
    (hf : ∀ s a s', I s → f s a = .ok s' → I s') {l : List α} {s s' : β} (hs : I s)
    (h : l.foldlM f s = .ok s') : I s' := by
  induction l generalizing s with
  | nil =>
      obtain rfl := Except.ok.inj h
      exact hs
  | cons a l ih =>
      rw [List.foldlM_cons] at h
      cases ha : f s a with
      | error e =>
          rw [ha] at h
          cases h
      | ok t =>
          rw [ha] at h
          exact ih (hf s a t hs ha) h

theorem Created.subLoop {mod : Nat} : ∀ {ris : List Nat} {prev : Nat} {first : Option Nat}
    {b : Build σ} {r : Build σ × Nat × Option Nat}, Created create b.modules →
    subLoop create mod ris prev first b = .ok r → Created create r.1.modules := by
  intro ris
  induction ris with
  | nil =>
      intro prev first b r h hrun
      obtain rfl := Except.ok.inj hrun
      exact h
  | cons ri ris ih =>
      intro prev first b r h hrun
      rw [Pipeline.subLoop] at hrun
      cases hadd : Pipeline.addModule create b ri with
      | error e => simp [hadd] at hrun
      | ok b₁ =>
          simp only [hadd] at hrun
          refine ih ?_ hrun
          have hnear := (h.addModule hadd).setNear b.modules.length 0 (some prev)
          rw [Build.linkSub]
          split
          · exact hnear.setNear prev 1 _
          · exact hnear

theorem Created.addOutput {mod mc k : Nat} (h : Created create b.modules)
    (hadd : addOutput create size mod mc b k = .ok b') : Created create b'.modules := by
  rw [Pipeline.addOutput] at hadd
  cases hsub : Pipeline.subLoop create mod (List.range' (mc + 1) (size - (mc + 1))) mod none b with
  | error e => simp [hsub] at hadd
  | ok r =>
      obtain ⟨b₁, last, first⟩ := r
      simp only [hsub] at hadd
      obtain rfl := Except.ok.inj hadd
      have hsubs : Created create ({ b₁ with nextPort := b₁.nextPort + 1 } : Build σ).modules :=
        h.subLoop hsub
      have hport : Created create ((Build.setWireDst { b₁ with nextPort := b₁.nextPort + 1 } last
          b₁.nextPort).setWireEntry b₁.nextPort last).modules := hsubs.setWireDst last _
      exact hport.setNear mod (1 + k) first

theorem Created.serveRequest {req : Nat × Int} (h : Created create b.modules)
    (hserve : serveRequest create size b req = .ok b') : Created create b'.modules := by
  rw [Pipeline.serveRequest] at hserve
  cases hm : b.modules[req.1]? with
  | none =>
      simp only [hm] at hserve
      obtain rfl := Except.ok.inj hserve
      exact h
  | some m =>
      simp only [hm] at hserve
      split at hserve
      · obtain rfl := Except.ok.inj hserve
        exact h
      · exact foldlM_ok_invariant (I := fun b => Created create b.modules)
          (fun _ _ _ hs ha => hs.addOutput ha) (h.resizeNear req.1 _) hserve

theorem Created.rounds {order : Nat → List (Nat × Int) → List (Nat × Int)} : ∀ {fuel r : Nat}
    {b b' : Build σ}, Created create b.modules → rounds create size order fuel r b = .ok b' →
    Created create b'.modules := by
  intro fuel
  induction fuel with
  | zero =>
      intro r b b' h hrun
      obtain rfl := Except.ok.inj hrun
      exact h
  | succ fuel ih =>
      intro r b b' h hrun
      rw [Pipeline.rounds] at hrun
      split at hrun
      · obtain rfl := Except.ok.inj hrun
        exact h
      · cases hfold : (order r b.requested).foldlM (Pipeline.serveRequest create size)
            { b with requested := [] } with
        | error e => simp [hfold] at hrun
        | ok b₁ =>
            simp only [hfold] at hrun
            exact ih (foldlM_ok_invariant (I := fun b => Created create b.modules)
              (fun _ _ _ hs ha => hs.serveRequest ha) h hfold) hrun

theorem Created.linkMain (h : Created create b.modules) :
    Created create (linkMain b).modules := by
  refine Created.setWireDst (Created.setWireDst ?_ 0 0) _ 1
  intro m hm
  obtain ⟨i, hi, rfl⟩ := List.mem_mapIdx.mp hm
  obtain ⟨call, count, hcreate⟩ := h _ (List.getElem_mem hi)
  exact ⟨call, count, hcreate⟩

theorem construct_created {order : Nat → List (Nat × Int) → List (Nat × Int)} :
    Created create (construct create size order).modules := by
  have hempty : Created create ([] : List (Module σ)) := by
    intro m hm
    cases hm
  rw [construct]
  cases hmain : mainChain create size with
  | error e => exact hempty
  | ok b =>
      have hb : Created create b.modules :=
        foldlM_ok_invariant (I := fun b => Created create b.modules)
          (fun _ _ _ hs ha => hs.addModule ha) hempty hmain
      dsimp only
      split
      · exact hempty
      · split
        · exact hempty
        · rename_i hrounds
          exact hb.linkMain.rounds hrounds

end PipelineTunnel.Pipeline
