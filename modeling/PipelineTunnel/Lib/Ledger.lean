import Mathlib.Algebra.Order.BigOperators.Group.List
import Mathlib.Algebra.Order.Ring.Int
import Mathlib.Algebra.Order.Ring.Nat
import Mathlib.Data.List.Count
import Mathlib.Data.List.GetD
import Mathlib.Data.List.Nodup
import Mathlib.Data.List.Perm.Subperm

/-!
# Buffers and their releases

An allocator numbers its buffers in the order in which it hands them out. It keeps one
counter, raised by the size of a buffer when it is handed out and lowered by that size
whenever the buffer is released. Nothing stops a second release of the same buffer.
-/

namespace PipelineTunnel

structure Ledger where
  sizes : List Nat := []
  released : List Nat := []
  bytes : Int := 0
deriving DecidableEq, Repr

namespace Ledger

variable {l : Ledger} {base : Int}

/-- The number of the next buffer. -/
def next (l : Ledger) : Nat := l.sizes.length

def size (l : Ledger) (b : Nat) : Nat := l.sizes.getD b 0

def alloc (l : Ledger) (size : Nat) : Ledger :=
  { l with sizes := l.sizes ++ [size], bytes := l.bytes + size }

def free (l : Ledger) (b : Nat) : Ledger :=
  { l with released := l.released ++ [b], bytes := l.bytes - l.size b }

@[simp] theorem next_alloc (n : Nat) : (l.alloc n).next = l.next + 1 := by
  simp [next, alloc]

@[simp] theorem next_free (b : Nat) : (l.free b).next = l.next := rfl

@[simp] theorem released_alloc (n : Nat) : (l.alloc n).released = l.released := rfl

@[simp] theorem released_free (b : Nat) : (l.free b).released = l.released ++ [b] := rfl

theorem size_alloc {b : Nat} (n : Nat) (hb : b < l.next) : (l.alloc n).size b = l.size b :=
  List.getD_append l.sizes [n] 0 b hb

theorem map_size_range (l : Ledger) : (List.range l.next).map l.size = l.sizes := by
  apply List.ext_getElem
  · simp [next]
  · intro i hi hi'
    simp [size, List.getElem?_eq_getElem hi']

/-- The counter is `base`, plus what was handed out, less what came back. -/
structure Accounts (base : Int) (l : Ledger) : Prop where
  known : ∀ b ∈ l.released, b < l.next
  bytes : l.bytes + ((l.released.map l.size).sum : Nat) = base + (l.sizes.sum : Nat)

theorem Accounts.empty (base : Int) : Accounts base { bytes := base } where
  known := by simp
  bytes := by simp

theorem Accounts.alloc (h : Accounts base l) (n : Nat) : Accounts base (l.alloc n) where
  known b hb := by
    have := h.known b hb
    simp
    omega
  bytes := by
    have hmap : l.released.map (l.alloc n).size = l.released.map l.size :=
      List.map_congr_left fun b hb => size_alloc n (h.known b hb)
    have hbytes := h.bytes
    simp only [released_alloc, hmap]
    simp only [Ledger.alloc, List.sum_append, List.sum_singleton, Nat.cast_add]
    omega

theorem Accounts.free (h : Accounts base l) {b : Nat} (hb : b < l.next) :
    Accounts base (l.free b) where
  known c hc := by
    rcases List.mem_append.mp hc with hc | hc
    · exact h.known c hc
    · obtain rfl := List.mem_singleton.mp hc
      exact hb
  bytes := by
    have hbytes := h.bytes
    have hsize : (l.free b).size = l.size := rfl
    simp only [released_free, hsize, List.map_append, List.map_singleton, List.sum_append,
      List.sum_singleton, Nat.cast_add]
    simp only [Ledger.free]
    omega

/-- While no buffer has come back twice, the counter is not below `base`. -/
theorem Accounts.base_le (h : Accounts base l) (hone : ∀ b, l.released.count b ≤ 1) :
    base ≤ l.bytes := by
  have hnodup : l.released.Nodup := List.nodup_iff_count_le_one.mpr hone
  have hsub : l.released ⊆ List.range l.next := fun b hb => List.mem_range.mpr (h.known b hb)
  obtain ⟨l', hperm, hsublist⟩ := hnodup.subperm hsub
  have hle : (l.released.map l.size).sum ≤ l.sizes.sum :=
    calc
      (l.released.map l.size).sum = (l'.map l.size).sum := ((hperm.map l.size).sum_nat).symm
      _ ≤ ((List.range l.next).map l.size).sum := (hsublist.map l.size).sum_le_sum fun _ _ =>
          Nat.zero_le _
      _ = l.sizes.sum := by rw [map_size_range]
  have hbytes := h.bytes
  omega

/-- Once every buffer has come back exactly once, the counter is `base` again. -/
theorem Accounts.eq_base (h : Accounts base l) (hone : ∀ b < l.next, l.released.count b = 1) :
    l.bytes = base := by
  have hperm : l.released.Perm (List.range l.next) := by
    rw [List.perm_iff_count]
    intro b
    by_cases hb : b < l.next
    · rw [hone b hb, List.count_eq_one_of_mem List.nodup_range (List.mem_range.mpr hb)]
    · rw [List.count_eq_zero_of_not_mem fun hmem => hb (h.known b hmem),
        List.count_eq_zero_of_not_mem fun hmem => hb (List.mem_range.mp hmem)]
  have hsum := (hperm.map l.size).sum_nat
  rw [map_size_range] at hsum
  have hbytes := h.bytes
  omega

/-! ## Holders

Each of a list of holders owes the release of some buffers. -/

section Holders

variable {α : Type*} (owed : α → List Nat) {holders : List α} {i : Nat} {x : α}

theorem count_cons_split (a : Nat) (l : List Nat) (b : Nat) :
    (a :: l).count b = [a].count b + l.count b := by
  rw [← List.count_append, List.singleton_append]

theorem count_owed_eraseIdx (hx : holders[i]? = some x) (b : Nat) :
    ((holders.eraseIdx i).flatMap owed).count b + (owed x).count b =
      (holders.flatMap owed).count b := by
  obtain ⟨hi, rfl⟩ := List.getElem?_eq_some_iff.mp hx
  have hperm := (List.getElem_cons_eraseIdx_perm hi).flatMap_right owed
  have hcount := hperm.count_eq b
  rw [List.flatMap_cons, List.count_append] at hcount
  omega

theorem count_owed_set (hx : holders[i]? = some x) (y : α) (b : Nat) :
    ((holders.set i y).flatMap owed).count b + (owed x).count b =
      (holders.flatMap owed).count b + (owed y).count b := by
  have hi := (List.getElem?_eq_some_iff.mp hx).1
  have hperm := (List.set_perm_cons_eraseIdx hi y).flatMap_right owed
  have hcount := hperm.count_eq b
  rw [List.flatMap_cons, List.count_append] at hcount
  have herase := count_owed_eraseIdx owed hx b
  omega

end Holders

end Ledger

end PipelineTunnel
