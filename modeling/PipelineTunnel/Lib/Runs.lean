import Mathlib.Logic.Function.Iterate
import Mathlib.Algebra.Order.Ring.Nat

/-!
# Maximal runs

The lengths of the maximal runs of equal elements of a list. Taking elements off the
front of the list takes them off the first runs (`runLengths_drop`), so a scanner that
moves through the list by whole or partial runs can be followed on the lengths alone.
-/

namespace PipelineTunnel.Runs

variable {α : Type*} [DecidableEq α]

/-- The lengths of the maximal runs of equal elements. -/
def runLengths : List α → List Nat
  | [] => []
  | a :: as =>
      match runLengths as with
      | [] => [1]
      | n :: ns => if as.head? = some a then (n + 1) :: ns else 1 :: n :: ns

/-- The runs of a list with its first element taken off. -/
def shrink : List Nat → List Nat
  | [] => []
  | n :: ns => if n ≤ 1 then ns else (n - 1) :: ns

theorem runLengths_eq_nil {as : List α} : runLengths as = [] ↔ as = [] := by
  cases as with
  | nil => simp [runLengths]
  | cons a as =>
      refine iff_of_false ?_ (List.cons_ne_nil a as)
      rw [runLengths]
      split
      · exact List.cons_ne_nil _ _
      · split <;> exact List.cons_ne_nil _ _

theorem runLengths_pos (as : List α) : ∀ n ∈ runLengths as, 1 ≤ n := by
  induction as with
  | nil => exact nofun
  | cons a as ih =>
      intro n hn
      rw [runLengths] at hn
      cases hruns : runLengths as with
      | nil =>
          rw [hruns] at hn
          simp only [List.mem_singleton] at hn
          omega
      | cons m ms =>
          rw [hruns] at hn ih
          dsimp only at hn
          split_ifs at hn
          · rcases List.mem_cons.mp hn with rfl | hn
            · omega
            · exact ih n (List.mem_cons_of_mem m hn)
          · rcases List.mem_cons.mp hn with rfl | hn
            · omega
            · exact ih n hn

theorem runLengths_cons (a : α) (as : List α) :
    ∃ n ns, runLengths (a :: as) = n :: ns ∧ 1 ≤ n := by
  cases hruns : runLengths (a :: as) with
  | nil => exact absurd (runLengths_eq_nil.mp hruns) (List.cons_ne_nil a as)
  | cons n ns =>
      refine ⟨n, ns, rfl, runLengths_pos (a :: as) n ?_⟩
      rw [hruns]
      exact List.mem_cons_self

theorem sum_runLengths (as : List α) : (runLengths as).sum = as.length := by
  induction as with
  | nil => rfl
  | cons a as ih =>
      rw [runLengths, List.length_cons, ← ih]
      cases runLengths as with
      | nil => rfl
      | cons n ns =>
          dsimp only
          split_ifs <;> simp only [List.sum_cons] <;> omega

/-- A list that goes on with its first element has a longer first run. -/
theorem runLengths_same (a : α) (as : List α) {n : Nat} {ns : List Nat}
    (h : runLengths (a :: as) = n :: ns) : runLengths (a :: a :: as) = (n + 1) :: ns := by
  rw [runLengths, h]
  simp

/-- A list that goes on with another element begins with a run of its own. -/
theorem runLengths_other {a b : α} (as : List α) (hne : b ≠ a) :
    runLengths (a :: b :: as) = 1 :: runLengths (b :: as) := by
  rw [runLengths]
  cases hruns : runLengths (b :: as) with
  | nil => exact absurd (runLengths_eq_nil.mp hruns) (List.cons_ne_nil _ _)
  | cons n ns => simp [hne]

theorem shrink_runLengths (a : α) (as : List α) :
    shrink (runLengths (a :: as)) = runLengths as := by
  rw [runLengths]
  cases hruns : runLengths as with
  | nil => rfl
  | cons n ns =>
      have hpos := runLengths_pos as n (by rw [hruns]; exact List.mem_cons_self)
      dsimp only
      split_ifs
      · rw [shrink, if_neg (by omega), Nat.add_sub_cancel]
      · rw [shrink, if_pos (Nat.le_refl 1)]

theorem runLengths_drop (as : List α) (k : Nat) :
    runLengths (as.drop k) = shrink^[k] (runLengths as) := by
  induction k generalizing as with
  | zero => rfl
  | succ k ih =>
      cases as with
      | nil =>
          have hrest := ih []
          rw [List.drop_nil] at hrest ⊢
          exact hrest
      | cons a as => rw [List.drop_succ_cons, ih, Function.iterate_succ_apply, shrink_runLengths]

/-- Fewer elements than the first run has. -/
theorem iterate_shrink_lt {n : Nat} (ns : List Nat) {k : Nat} (h : k < n) :
    shrink^[k] (n :: ns) = (n - k) :: ns := by
  induction k generalizing n with
  | zero => rfl
  | succ k ih =>
      rw [Function.iterate_succ_apply, shrink, if_neg (by omega), ih (by omega)]
      congr 1
      omega

theorem iterate_shrink_eq {n : Nat} (ns : List Nat) (h : 1 ≤ n) : shrink^[n] (n :: ns) = ns := by
  obtain ⟨k, rfl⟩ : ∃ k, n = k + 1 := ⟨n - 1, by omega⟩
  rw [Function.iterate_succ_apply', iterate_shrink_lt ns (Nat.lt_succ_self k), shrink,
    if_pos (by omega)]

/-- The elements and the runs that are left. -/
def weight (ns : List Nat) : Nat := ns.sum + ns.length

theorem weight_shrink_le (ns : List Nat) : weight (shrink ns) ≤ weight ns := by
  cases ns with
  | nil => exact Nat.le_refl _
  | cons n ns =>
      rw [shrink]
      split_ifs <;> simp only [weight, List.sum_cons, List.length_cons] <;> omega

theorem weight_iterate_lt {ns : List Nat} (hne : ns ≠ []) {k : Nat} (hk : 1 ≤ k) :
    weight (shrink^[k] ns) < weight ns := by
  induction k with
  | zero => omega
  | succ k ih =>
      rw [Function.iterate_succ_apply']
      rcases Nat.eq_zero_or_pos k with rfl | hpos
      · obtain ⟨n, ns, rfl⟩ := List.exists_cons_of_ne_nil hne
        rw [Function.iterate_zero_apply, shrink]
        split_ifs <;> simp only [weight, List.sum_cons, List.length_cons] <;> omega
      · exact Nat.lt_of_le_of_lt (weight_shrink_le _) (ih hpos)

end PipelineTunnel.Runs
