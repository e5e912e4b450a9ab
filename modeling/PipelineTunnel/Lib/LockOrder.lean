import PipelineTunnel.Lib.Rank
import Mathlib.Data.Set.Finite.Lattice

/-!
# Threads that take locks in order

Threads take and give back locks that cannot be taken twice. When every thread takes each lock
while it holds only locks of smaller rank, and gives back all of them in the end, no run of the
threads gets stuck before all of them are done.
-/

namespace PipelineTunnel.LockOrder

open StepSystem

variable {L : Type*} [DecidableEq L]

inductive Op (L : Type*) where
  | acquire (lock : L)
  | release (lock : L)
deriving DecidableEq, Repr

structure Thread (L : Type*) where
  held : List L := []
  todo : List (Op L)
deriving DecidableEq, Repr

/-- Thread `i` executes its next operation; a lock is taken when no thread holds it. -/
def step (s : List (Thread L)) (i : Nat) : Option (List (Thread L)) :=
  match s[i]? with
  | some ⟨held, .acquire lock :: todo⟩ =>
      if ∀ t ∈ s, lock ∉ t.held then some (s.set i ⟨lock :: held, todo⟩) else none
  | some ⟨held, .release lock :: todo⟩ => some (s.set i ⟨held.erase lock, todo⟩)
  | _ => none

/-- From `held` on, a lock is taken with smaller ones only, one that is given back is held, and
none is left in the end. -/
def Ordered (rank : L → Nat) : List L → List (Op L) → Prop
  | held, [] => held = []
  | held, .acquire lock :: todo => (∀ h ∈ held, rank h < rank lock) ∧ Ordered rank (lock :: held) todo
  | held, .release lock :: todo => lock ∈ held ∧ Ordered rank (held.erase lock) todo

/-- Every thread keeps the order. -/
def Safe (rank : L → Nat) (s : List (Thread L)) : Prop := ∀ t ∈ s, Ordered rank t.held t.todo

variable {rank : L → Nat} {s s' : List (Thread L)} {i : Nat}

/-- Everything a step can be. -/
theorem step_cases (h : step s i = some s') :
    ∃ before after held todo lock,
      (s = before ++ ⟨held, .acquire lock :: todo⟩ :: after ∧
        s' = before ++ ⟨lock :: held, todo⟩ :: after) ∨
      s = before ++ ⟨held, .release lock :: todo⟩ :: after ∧
        s' = before ++ ⟨held.erase lock, todo⟩ :: after := by
  rw [step] at h
  split at h
  · rename_i held lock todo hget
    split_ifs at h
    obtain rfl := Option.some.inj h
    obtain ⟨before, after, hs, -, hset, -⟩ := split_at hget
    exact ⟨before, after, held, todo, lock, .inl ⟨hs, hset _⟩⟩
  · rename_i held lock todo hget
    obtain rfl := Option.some.inj h
    obtain ⟨before, after, hs, -, hset, -⟩ := split_at hget
    exact ⟨before, after, held, todo, lock, .inr ⟨hs, hset _⟩⟩
  · cases h

theorem safe_step (h : Safe rank s) (hstep : step s i = some s') : Safe rank s' := by
  obtain ⟨before, after, held, todo, lock, hs⟩ := step_cases hstep
  -- the other threads are as they were
  have hothers : ∀ t t' : Thread L, s = before ++ t :: after → s' = before ++ t' :: after →
      Ordered rank t'.held t'.todo → Safe rank s' := by
    rintro t t' rfl rfl ht' u hu
    simp only [List.mem_append, List.mem_cons] at hu
    obtain hu | rfl | hu := hu
    · exact h u (by simp [hu])
    · exact ht'
    · exact h u (by simp [hu])
  obtain ⟨hbefore, hafter⟩ | ⟨hbefore, hafter⟩ := hs
  · have hthread : Ordered rank held (.acquire lock :: todo) :=
      h ⟨held, .acquire lock :: todo⟩ (by simp [hbefore])
    exact hothers _ _ hbefore hafter hthread.2
  · have hthread : Ordered rank held (.release lock :: todo) :=
      h ⟨held, .release lock :: todo⟩ (by simp [hbefore])
    exact hothers _ _ hbefore hafter hthread.2

/-- A thread that is not done and cannot step waits for a lock that is taken. -/
theorem waits_of_stuck (hstuck : ∀ i, step s i = none) {t : Thread L} (ht : t ∈ s)
    (htodo : t.todo ≠ []) :
    ∃ lock todo, t.todo = .acquire lock :: todo ∧ ∃ u ∈ s, lock ∈ u.held := by
  obtain ⟨i, hget⟩ := List.mem_iff_getElem?.mp ht
  have hnone := hstuck i
  obtain ⟨held, todo⟩ := t
  cases todo with
  | nil => exact absurd rfl htodo
  | cons op todo =>
      cases op with
      | release lock => simp [step, hget] at hnone
      | acquire lock =>
          simp only [step, hget, ite_eq_right_iff, reduceCtorEq, imp_false, not_forall,
            not_not] at hnone
          obtain ⟨u, hu, hheld⟩ := hnone
          exact ⟨lock, todo, rfl, u, hu, hheld⟩

/-- The rank of the lock that a thread takes next. -/
def wanted (rank : L → Nat) (t : Thread L) : Nat :=
  match t.todo with
  | .acquire lock :: _ => rank lock
  | _ => 0

/-- As long as a thread is not done, a thread can step. -/
theorem exists_step (h : Safe rank s) (hdone : ∃ t ∈ s, t.todo ≠ []) :
    ∃ i, (step s i).isSome = true := by
  by_contra hstuck
  simp only [not_exists, Bool.not_eq_true, Option.isSome_eq_false_iff, Option.isNone_iff_eq_none]
    at hstuck
  -- who holds the lock that a thread waits for waits for a greater one
  have hgreater : ∀ n, ∃ t ∈ s, ∃ lock todo, t.todo = .acquire lock :: todo ∧ n ≤ rank lock := by
    intro n
    induction n with
    | zero =>
        obtain ⟨t, ht, htodo⟩ := hdone
        obtain ⟨lock, todo, hnext, -⟩ := waits_of_stuck hstuck ht htodo
        exact ⟨t, ht, lock, todo, hnext, Nat.zero_le _⟩
    | succ n ih =>
        obtain ⟨t, ht, lock, todo, hnext, hle⟩ := ih
        obtain ⟨lock', todo', hnext', u, hu, hheld⟩ :=
          waits_of_stuck hstuck ht (by simp [hnext])
        obtain ⟨rfl, rfl⟩ : lock = lock' ∧ todo = todo' := by
          simpa using hnext.symm.trans hnext'
        have hordered := h u hu
        have hunfinished : u.todo ≠ [] := by
          intro hnil
          rw [hnil, Ordered] at hordered
          simp [hordered] at hheld
        obtain ⟨greater, todo', hnext', -⟩ := waits_of_stuck hstuck hu hunfinished
        rw [hnext', Ordered] at hordered
        exact ⟨u, hu, greater, todo', hnext', Nat.lt_of_le_of_lt hle (hordered.1 lock hheld)⟩
  -- but the threads are finitely many
  obtain ⟨bound, hbound⟩ := (s.finite_toSet.image (wanted rank)).bddAbove
  obtain ⟨t, ht, lock, todo, hnext, hle⟩ := hgreater (bound + 1)
  have hrank : wanted rank t ≤ bound := hbound ⟨t, ht, rfl⟩
  rw [wanted, hnext] at hrank
  exact Nat.not_succ_le_self bound (hle.trans hrank)

/-- How many operations are left. -/
def pending : List (Thread L) → Nat
  | [] => 0
  | t :: s => t.todo.length + pending s

omit [DecidableEq L] in
theorem pending_append (s t : List (Thread L)) : pending (s ++ t) = pending s + pending t := by
  induction s with
  | nil => simp [pending]
  | cons u s ih => simp [pending, ih, Nat.add_assoc]

theorem pending_step (h : step s i = some s') : pending s' < pending s := by
  obtain ⟨before, after, held, todo, lock, ⟨rfl, rfl⟩ | ⟨rfl, rfl⟩⟩ := step_cases h
  · simp [pending_append, pending]
  · simp [pending_append, pending]

/-- Threads that keep the order never get stuck, and come to their ends. -/
theorem safe_run (h : Safe rank s) {is : List Nat} (hrun : run step s is = some s') :
    is.length + pending s' ≤ pending s ∧
      ((∀ t ∈ s', t.todo = [] ∧ t.held = []) ∨ ∃ i, (step s' i).isSome = true) := by
  have hsafe : Safe rank s' :=
    invariant_of_run (fun _ _ _ hinv hstep => safe_step hinv hstep) h hrun
  constructor
  · exact length_add_rank_le (p := fun _ => True) (fun _ _ _ _ hstep => pending_step hstep)
      (fun _ _ => trivial) hrun
  · by_cases hdone : ∃ t ∈ s', t.todo ≠ []
    · exact .inr (exists_step hsafe hdone)
    · left
      intro t ht
      have htodo : t.todo = [] := by
        by_contra hne
        exact hdone ⟨t, ht, hne⟩
      have hordered := hsafe t ht
      rw [htodo, Ordered] at hordered
      exact ⟨htodo, hordered⟩

/-! ## Programs -/

/-- A critical section. -/
def locked (lock : L) (body : List (Op L)) : List (Op L) :=
  .acquire lock :: (body ++ [.release lock])

/-- The operations leave the held locks as they are and take only locks of rank `bound` or more. -/
def Keeps (rank : L → Nat) (bound : Nat) (ops : List (Op L)) : Prop :=
  ∀ held rest, (∀ h ∈ held, rank h < bound) → Ordered rank held rest →
    Ordered rank held (ops ++ rest)

section Keeps

variable {bound bound' : Nat} {ops ops' : List (Op L)}

theorem Keeps.ordered (h : Keeps rank 0 ops) : Ordered rank [] ops := by
  simpa using h [] [] (by simp) rfl

theorem keeps_nil : Keeps rank bound ([] : List (Op L)) := fun _ _ _ h => h

theorem Keeps.append (h : Keeps rank bound ops) (h' : Keeps rank bound ops') :
    Keeps rank bound (ops ++ ops') := by
  intro held rest hheld hrest
  rw [List.append_assoc]
  exact h held _ hheld (h' held rest hheld hrest)

theorem keeps_flatMap {α : Type*} {f : α → List (Op L)} {as : List α}
    (h : ∀ a ∈ as, Keeps rank bound (f a)) : Keeps rank bound (as.flatMap f) := by
  induction as with
  | nil => exact keeps_nil
  | cons a as ih =>
      rw [List.flatMap_cons]
      exact (h a List.mem_cons_self).append (ih fun b hb => h b (List.mem_cons_of_mem a hb))

theorem Keeps.mono (h : Keeps rank bound ops) (hle : bound' ≤ bound) : Keeps rank bound' ops :=
  fun held rest hheld => h held rest fun lock hlock => (hheld lock hlock).trans_le hle

theorem Keeps.locked {lock : L} (h : Keeps rank (rank lock + 1) ops) (hle : bound ≤ rank lock) :
    Keeps rank bound (locked lock ops) := by
  apply Keeps.mono ?_ hle
  intro held rest hheld hrest
  rw [LockOrder.locked, List.cons_append, List.append_assoc, Ordered]
  constructor
  · exact hheld
  · apply h
    · intro lock' hlock'
      rcases List.mem_cons.mp hlock' with rfl | hmem
      · exact Nat.lt_succ_self _
      · exact Nat.lt_succ_of_lt (hheld lock' hmem)
    · simpa [Ordered] using hrest

/-- The first lock is given back once the second one is taken. -/
theorem Keeps.handover {lock lock' : L} (hlt : rank lock < rank lock')
    (h : Keeps rank (rank lock + 1) ops) (h' : Keeps rank (rank lock' + 1) ops') :
    Keeps rank (rank lock) (.acquire lock ::
      (ops ++ .acquire lock' :: .release lock :: (ops' ++ [.release lock']))) := by
  intro held rest hheld hrest
  have hne : lock' ≠ lock := fun heq => Nat.ne_of_gt hlt (by rw [heq])
  rw [List.cons_append, List.append_assoc, Ordered]
  constructor
  · exact hheld
  · apply h
    · intro lock'' hmem
      rcases List.mem_cons.mp hmem with rfl | hmem
      · exact Nat.lt_succ_self _
      · exact Nat.lt_succ_of_lt (hheld lock'' hmem)
    · simp only [List.cons_append, List.append_assoc, Ordered]
      refine ⟨?_, by simp, ?_⟩
      · intro lock'' hmem
        rcases List.mem_cons.mp hmem with rfl | hmem
        · exact hlt
        · exact (hheld lock'' hmem).trans hlt
      · rw [List.erase_cons_tail (by simpa using hne), List.erase_cons_head]
        apply h'
        · intro lock'' hmem
          rcases List.mem_cons.mp hmem with rfl | hmem
          · exact Nat.lt_succ_self _
          · exact ((hheld lock'' hmem).trans hlt).trans (Nat.lt_succ_self _)
        · simpa [Ordered] using hrest

end Keeps

end PipelineTunnel.LockOrder
