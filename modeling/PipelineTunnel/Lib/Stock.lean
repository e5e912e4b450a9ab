import PipelineTunnel.Lib.FifoLine
import Mathlib.Algebra.BigOperators.Group.Finset.Basic
import Mathlib.Algebra.Order.Group.Multiset

/-!
# The stock of a set of stages

`stock` gathers the items in the boxes of some stages, each as a value that depends on
the box it is in; items without a value do not count. Where the order of the items does
not matter, a step of the stages is described by what it adds to the stock and what it
takes away.
-/

namespace PipelineTunnel.FifoLine

variable {ι α β : Type*} {places : Finset ι} {vin vout : ι → α → Option β} {s : Stages ι α}

/-- What one item contributes. -/
def valueOf (v : Option β) : Multiset β := v.toList

def stock (places : Finset ι) (vin vout : ι → α → Option β) (s : Stages ι α) : Multiset β :=
  ∑ m ∈ places, (↑((s.inbox m).filterMap (vin m)) : Multiset β) +
    ∑ m ∈ places, (↑((s.outbox m).filterMap (vout m)) : Multiset β)

theorem coe_filterMap_cons (v : α → Option β) (x : α) (l : List α) :
    (↑((x :: l).filterMap v) : Multiset β) = valueOf (v x) + ↑(l.filterMap v) := by
  cases h : v x <;> simp [valueOf, h]

theorem coe_filterMap_concat (v : α → Option β) (x : α) (l : List α) :
    (↑((l ++ [x]).filterMap v) : Multiset β) = ↑(l.filterMap v) + valueOf (v x) := by
  rw [List.filterMap_append, ← Multiset.coe_add]
  cases h : v x <;> simp [valueOf, h]

/-- Nothing is in stock when the boxes are empty. -/
theorem stock_empty (hin : ∀ m ∈ places, s.inbox m = []) (hout : ∀ m ∈ places, s.outbox m = []) :
    stock places vin vout s = 0 := by
  rw [stock, Finset.sum_eq_zero, Finset.sum_eq_zero, add_zero]
  · intro m hm
    rw [hout m hm]
    rfl
  · intro m hm
    rw [hin m hm]
    rfl

variable [DecidableEq ι] {m q : ι}

/-- The contents of all boxes after the change of one. -/
theorem sum_filterMap_update (boxes : ι → List α) (v : ι → α → Option β) (hm : m ∈ places)
    (l : List α) :
    ∑ x ∈ places, (↑((Function.update boxes m l x).filterMap (v x)) : Multiset β) +
        ↑((boxes m).filterMap (v m)) =
      ∑ x ∈ places, (↑((boxes x).filterMap (v x)) : Multiset β) + ↑(l.filterMap (v m)) := by
  have hrest : ∑ x ∈ places.erase m,
      (↑((Function.update boxes m l x).filterMap (v x)) : Multiset β) =
      ∑ x ∈ places.erase m, (↑((boxes x).filterMap (v x)) : Multiset β) := by
    apply Finset.sum_congr rfl
    intro x hx
    rw [Function.update_of_ne (Finset.ne_of_mem_erase hx)]
  rw [← Finset.add_sum_erase _ _ hm, ← Finset.add_sum_erase _ _ hm, hrest, Function.update_self,
    add_comm, add_comm _ (∑ x ∈ places.erase m, _), add_assoc]

/-- A new item in an inbox. -/
theorem stock_post (vin vout : ι → α → Option β) (hq : q ∈ places) (x : α) :
    stock places vin vout (s.post q x) = stock places vin vout s + valueOf (vin q x) := by
  have hsum := sum_filterMap_update s.inbox vin hq (s.inbox q ++ [x])
  rw [coe_filterMap_concat, ← add_assoc, add_right_comm] at hsum
  have hin := add_right_cancel hsum
  simp only [stock, Stages.post]
  rw [hin, add_right_comm]

/-- The head of an outbox is gone. -/
theorem stock_setOutbox (vin vout : ι → α → Option β) (hm : m ∈ places) {y : α} {rest : List α}
    (hout : s.outbox m = y :: rest) :
    stock places vin vout (s.setOutbox m rest) + valueOf (vout m y) =
      stock places vin vout s := by
  have hsum := sum_filterMap_update s.outbox vout hm rest
  rw [hout, coe_filterMap_cons, ← add_assoc] at hsum
  simp only [stock, Stages.setOutbox]
  rw [add_assoc, add_right_cancel hsum]

/-- A stage turns the head of its inbox into the contents of its outbox. -/
theorem stock_handle (vin vout : ι → α → Option β) (hm : m ∈ places) {x : α} {rest : List α}
    (ys : List α) (hin : s.inbox m = x :: rest) (hout : s.outbox m = []) :
    stock places vin vout (s.handle m rest ys) + valueOf (vin m x) =
      stock places vin vout s + ↑(ys.filterMap (vout m)) := by
  have hsum := sum_filterMap_update s.inbox vin hm rest
  have hsum' := sum_filterMap_update s.outbox vout hm ys
  rw [hin, coe_filterMap_cons, ← add_assoc] at hsum
  rw [hout, List.filterMap_nil, Multiset.coe_nil, add_zero] at hsum'
  simp only [stock, Stages.handle]
  rw [hsum', add_right_comm, add_right_cancel hsum, add_assoc]

end PipelineTunnel.FifoLine
