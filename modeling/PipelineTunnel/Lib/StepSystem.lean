import Mathlib.Data.List.Basic

/-!
# Runs of a labelled step function

A system is a partial step function on states: `step s l = none` says that the
step `l` is not enabled in `s`. A run is a list of labels, so every prefix of a
run is a run and a fact about the last state of all runs is a fact about every
moment. `Meets` restricts a run step by step, in the state before each step.
-/

namespace PipelineTunnel.StepSystem

variable {S L : Type*} (step : S → L → Option S)

/-- Execute the labels from left to right; a disabled step has no result. -/
def run : S → List L → Option S
  | s, [] => some s
  | s, l :: ls =>
      match step s l with
      | none => none
      | some s' => run s' ls

/-- Every executed step of the run satisfies `ok` in the state before it. -/
def Meets (ok : S → L → Prop) : S → List L → Prop
  | _, [] => True
  | s, l :: ls => ok s l ∧ ∀ s', step s l = some s' → Meets ok s' ls

/-- A condition that can be evaluated can be evaluated along a run. -/
instance decidableMeets (ok : S → L → Prop) [∀ s l, Decidable (ok s l)] :
    ∀ s ls, Decidable (Meets step ok s ls)
  | _, [] => isTrue trivial
  | s, l :: ls =>
      match h : step s l with
      | none => decidable_of_iff (ok s l) ⟨fun hok => ⟨hok, by simp [h]⟩, And.left⟩
      | some t =>
          have := decidableMeets ok t ls
          decidable_of_iff (ok s l ∧ Meets step ok t ls)
            ⟨fun hok => ⟨hok.1, fun s' hs => Option.some.inj (h.symm.trans hs) ▸ hok.2⟩,
              fun hok => ⟨hok.1, hok.2 t h⟩⟩

variable {step}

theorem run_cons_some {s s' : S} {l : L} {ls : List L}
    (h : run step s (l :: ls) = some s') :
    ∃ t, step s l = some t ∧ run step t ls = some s' := by
  simp only [run] at h
  cases ht : step s l with
  | none => simp [ht] at h
  | some t => exact ⟨t, rfl, by simpa [ht] using h⟩

theorem run_concat_some {s s' : S} {l : L} {ls : List L}
    (h : run step s (ls ++ [l]) = some s') :
    ∃ t, run step s ls = some t ∧ step t l = some s' := by
  induction ls generalizing s with
  | nil =>
      obtain ⟨t, ht, hrun⟩ := run_cons_some h
      obtain rfl : t = s' := by simpa [run] using hrun
      exact ⟨s, rfl, ht⟩
  | cons m ls ih =>
      obtain ⟨t, ht, hrun⟩ := run_cons_some h
      obtain ⟨u, hu, hlast⟩ := ih hrun
      exact ⟨u, by simp only [run, ht, hu], hlast⟩

theorem run_append {s t u : S} {ls ms : List L} (h : run step s ls = some t)
    (h' : run step t ms = some u) : run step s (ls ++ ms) = some u := by
  induction ls generalizing s with
  | nil =>
      obtain rfl : s = t := by simpa [run] using h
      exact h'
  | cons l ls ih =>
      obtain ⟨v, hv, hrun⟩ := run_cons_some h
      simp only [List.cons_append, run, hv]
      exact ih hrun

theorem Meets.of_prefix {ok : S → L → Prop} {s : S} {ls ms : List L}
    (h : Meets step ok s ms) (hle : ls <+: ms) : Meets step ok s ls := by
  obtain ⟨rest, rfl⟩ := hle
  induction ls generalizing s with
  | nil => trivial
  | cons l ls ih => exact ⟨h.1, fun t ht => ih (h.2 t ht)⟩

theorem Meets.append {ok : S → L → Prop} {s t : S} {ls ms : List L} (h : Meets step ok s ls)
    (hrun : run step s ls = some t) (h' : Meets step ok t ms) : Meets step ok s (ls ++ ms) := by
  induction ls generalizing s with
  | nil =>
      obtain rfl : s = t := by simpa [run] using hrun
      exact h'
  | cons l ls ih =>
      obtain ⟨u, hu, hrest⟩ := run_cons_some hrun
      refine ⟨h.1, fun v hv => ?_⟩
      obtain rfl := Option.some.inj (hu.symm.trans hv)
      exact ih (h.2 u hu) hrest

/-- What a run meets at its last step, in the state before it. -/
theorem Meets.last {ok : S → L → Prop} {s t : S} {ls : List L} {l : L}
    (h : Meets step ok s (ls ++ [l])) (hrun : run step s ls = some t) : ok t l := by
  induction ls generalizing s with
  | nil =>
      obtain rfl : s = t := by simpa [run] using hrun
      exact h.1
  | cons m ls ih =>
      obtain ⟨u, hu, hrest⟩ := run_cons_some hrun
      exact ih (h.2 u hu) hrest

/-- A condition on the labels joins the condition on the steps. -/
theorem Meets.and_mem {ok : S → L → Prop} {p : L → Prop} {s : S} {ls : List L}
    (h : Meets step ok s ls) (hp : ∀ l ∈ ls, p l) :
    Meets step (fun s l => p l ∧ ok s l) s ls := by
  induction ls generalizing s with
  | nil => trivial
  | cons l ls ih =>
      refine ⟨⟨hp l List.mem_cons_self, h.1⟩, fun t ht => ?_⟩
      exact ih (h.2 t ht) fun m hm => hp m (List.mem_cons_of_mem l hm)

/-- An invariant kept by every step that meets the condition holds after every
run whose steps all meet it. -/
theorem invariant_of_meets {ok : S → L → Prop} {I : S → Prop}
    (hstep : ∀ s l s', I s → ok s l → step s l = some s' → I s')
    {s s' : S} {ls : List L} (hs : I s) (hok : Meets step ok s ls)
    (h : run step s ls = some s') : I s' := by
  induction ls generalizing s with
  | nil =>
      have heq : s = s' := by simpa [run] using h
      exact heq ▸ hs
  | cons l ls ih =>
      obtain ⟨t, ht, hrun⟩ := run_cons_some h
      exact ih (hstep s l t hs hok.1 ht) (hok.2 t ht) hrun

/-- When every step that meets the condition is enabled and extends an invariant
on the history and the state, the whole run exists and ends in that invariant. -/
theorem exists_run_of_meets {ok : S → L → Prop} {I : List L → S → Prop}
    (hstep : ∀ hist s l, I hist s → ok s l → ∃ s', step s l = some s' ∧ I (hist ++ [l]) s')
    {hist : List L} {s : S} {ls : List L} (hs : I hist s) (hok : Meets step ok s ls) :
    ∃ s', run step s ls = some s' ∧ I (hist ++ ls) s' := by
  induction ls generalizing hist s with
  | nil => exact ⟨s, rfl, by simpa using hs⟩
  | cons l ls ih =>
      obtain ⟨t, ht, hI⟩ := hstep hist s l hs hok.1
      obtain ⟨s', hrun, hI'⟩ := ih hI (hok.2 t ht)
      exact ⟨s', by simp only [run, ht, hrun], by simpa using hI'⟩

/-- A condition that follows from an invariant is met by every run. -/
theorem meets_of_invariant {ok : S → L → Prop} {I : S → Prop} {ls : List L}
    (hok : ∀ s, ∀ l ∈ ls, I s → ok s l)
    (hstep : ∀ s l s', I s → ok s l → step s l = some s' → I s')
    {s : S} (hs : I s) : Meets step ok s ls := by
  induction ls generalizing s with
  | nil => trivial
  | cons l ls ih =>
      have hl := hok s l List.mem_cons_self hs
      refine ⟨hl, fun t ht => ?_⟩
      exact ih (fun s m hm => hok s m (List.mem_cons_of_mem l hm)) (hstep s l t hs hl ht)

/-- A condition without which a step leads from a reachable state to a bad one is met by a run
that reaches good states only; the invariant `J` is what is known of all reachable states. -/
theorem meets_of_reached {ok : S → L → Prop} {I J : S → Prop}
    (hok : ∀ s l, J s → (∀ s', step s l = some s' → I s') → ok s l)
    (hstep : ∀ s l s', J s → step s l = some s' → J s') {s : S} {ls : List L} (hs : J s)
    (hall : ∀ ms s', ms <+: ls → run step s ms = some s' → I s') : Meets step ok s ls := by
  induction ls generalizing s with
  | nil => trivial
  | cons l ls ih =>
      constructor
      · refine hok s l hs fun s' hs' => hall [l] s' ⟨ls, rfl⟩ ?_
        simp only [run, hs']
      · intro t ht
        refine ih (hstep s l t hs ht) fun ms s' hle hrun => ?_
        refine hall (l :: ms) s' (List.cons_prefix_cons.mpr ⟨rfl, hle⟩) ?_
        simp only [run, ht, hrun]

/-- A condition that decides of each step whether it keeps `I` is met by exactly the runs that stay
in `I`; `J` is what else is known of their states. -/
theorem reached_iff_meets {ok : S → L → Prop} {I J : S → Prop}
    (hiff : ∀ s l s', I s → J s → step s l = some s' → (I s' ↔ ok s l))
    (hstep : ∀ s l s', I s → J s → step s l = some s' → J s')
    {s t : S} {ls : List L} (hI : I s) (hJ : J s) (hrun : run step s ls = some t) :
    (∀ ms u, ms <+: ls → run step s ms = some u → I u) ↔ Meets step ok s ls := by
  induction ls generalizing s with
  | nil =>
      refine ⟨fun _ => trivial, fun _ ms u hle hu => ?_⟩
      obtain rfl := List.prefix_nil.mp hle
      obtain rfl := Option.some.inj hu
      exact hI
  | cons l ls ih =>
      obtain ⟨s₁, hs₁, hrest⟩ := run_cons_some hrun
      have hcons : ∀ ms, run step s (l :: ms) = run step s₁ ms := by
        intro ms
        simp only [run, hs₁]
      have hJ₁ := hstep s l s₁ hI hJ hs₁
      constructor
      · intro hall
        have hI₁ : I s₁ := hall [l] s₁ ⟨ls, rfl⟩ ((hcons []).trans rfl)
        refine ⟨(hiff s l s₁ hI hJ hs₁).mp hI₁, fun s' hs' => ?_⟩
        obtain rfl := Option.some.inj (hs₁.symm.trans hs')
        refine (ih hI₁ hJ₁ hrest).mp fun ms u hle hu => ?_
        exact hall (l :: ms) u (List.cons_prefix_cons.mpr ⟨rfl, hle⟩) ((hcons ms).trans hu)
      · intro hmeets ms u hle hu
        have hI₁ : I s₁ := (hiff s l s₁ hI hJ hs₁).mpr hmeets.1
        cases ms with
        | nil =>
            obtain rfl := Option.some.inj hu
            exact hI
        | cons m ms =>
            obtain ⟨rfl, hle'⟩ := List.cons_prefix_cons.mp hle
            exact (ih hI₁ hJ₁ hrest).mpr (hmeets.2 s₁ hs₁) ms u hle' ((hcons ms).symm.trans hu)

/-- Conditions that an invariant makes equivalent are met by the same runs. -/
theorem meets_congr {ok ok' : S → L → Prop} {I : S → Prop}
    (hok : ∀ s l, I s → (ok s l ↔ ok' s l))
    (hstep : ∀ s l s', I s → step s l = some s' → I s')
    {s : S} {ls : List L} (hs : I s) : Meets step ok s ls ↔ Meets step ok' s ls := by
  induction ls generalizing s with
  | nil => rfl
  | cons l ls ih =>
      constructor
      · intro h
        exact ⟨(hok s l hs).mp h.1, fun t ht => (ih (hstep s l t hs ht)).mp (h.2 t ht)⟩
      · intro h
        exact ⟨(hok s l hs).mpr h.1, fun t ht => (ih (hstep s l t hs ht)).mpr (h.2 t ht)⟩

theorem meets_true (s : S) (ls : List L) : Meets step (fun _ _ => True) s ls := by
  induction ls generalizing s with
  | nil => trivial
  | cons l ls ih => exact ⟨trivial, fun s' _ => ih s'⟩

/-- An invariant kept by every step holds after every run. -/
theorem invariant_of_run {I : S → Prop}
    (hstep : ∀ s l s', I s → step s l = some s' → I s')
    {s s' : S} {ls : List L} (hs : I s) (h : run step s ls = some s') : I s' :=
  invariant_of_meets (fun s l s' hI _ => hstep s l s' hI) hs (meets_true s ls) h

/-- An invariant kept by the steps of a set of labels holds after every run made of them. -/
theorem invariant_of_labels {p : L → Prop} {I : S → Prop}
    (hstep : ∀ s l s', I s → p l → step s l = some s' → I s') {s s' : S} {ls : List L} (hs : I s)
    (hp : ∀ l ∈ ls, p l) (h : run step s ls = some s') : I s' :=
  invariant_of_meets (fun s l s' hI hl => hstep s l s' hI hl.1) hs
    ((meets_true s ls).and_mem hp) h

/-- The same for an invariant that also speaks about the labels executed so far. -/
theorem invariant_of_history {I : List L → S → Prop}
    (hstep : ∀ hist s l s', I hist s → step s l = some s' → I (hist ++ [l]) s')
    {hist : List L} {s s' : S} {ls : List L} (hs : I hist s) (h : run step s ls = some s') :
    I (hist ++ ls) s' := by
  induction ls generalizing hist s with
  | nil =>
      have heq : s = s' := by simpa [run] using h
      simpa using heq ▸ hs
  | cons l ls ih =>
      obtain ⟨t, ht, hrun⟩ := run_cons_some h
      simpa using ih (hstep hist s l t hs ht) hrun

/-! ## One of a list of parties -/

theorem split_at {α : Type*} {l : List α} {i : Nat} {a : α} (h : l[i]? = some a) :
    ∃ before after, l = before ++ a :: after ∧ l.eraseIdx i = before ++ after ∧
      (∀ b, l.set i b = before ++ b :: after) ∧ l.take i = before := by
  obtain ⟨hi, rfl⟩ := List.getElem?_eq_some_iff.mp h
  refine ⟨l.take i, l.drop (i + 1), ?_, List.eraseIdx_eq_take_drop_succ l i, ?_, rfl⟩
  · rw [List.getElem_cons_drop, List.take_append_drop]
  · exact fun b => List.set_eq_take_cons_drop b hi

end PipelineTunnel.StepSystem
