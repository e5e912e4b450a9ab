import Mathlib.Data.List.Basic
import Mathlib.Data.Multiset.Count
import Mathlib.Data.Multiset.Filter

/-!
# Delivery in order per port

`PortFifo l l'` says that the items `l` with their ports are a part of `l'` in which every
port has received its items in the order of `l'`, without a gap. Nothing is said about the
order across ports.
-/

namespace PipelineTunnel

variable {κ β : Type*} [DecidableEq κ] {l l' : List (κ × β)}

def PortFifo (l l' : List (κ × β)) : Prop :=
  ∀ p, l.filter (·.1 = p) <+: l'.filter (·.1 = p)

namespace PortFifo

theorem nil (l : List (κ × β)) : PortFifo [] l := fun _ => List.nil_prefix

theorem append_right (h : PortFifo l l') (r : List (κ × β)) : PortFifo l (l' ++ r) := by
  intro p
  rw [List.filter_append]
  exact (h p).trans (List.prefix_append _ _)

/-- The next item of a port is delivered. -/
theorem deliver (h : PortFifo l l') {p : κ} {y : β}
    (hnext : (l'.filter (·.1 = p))[(l.filter (·.1 = p)).length]? = some (p, y)) :
    PortFifo (l ++ [(p, y)]) l' := by
  intro q
  rw [List.filter_append]
  by_cases hq : p = q
  · subst hq
    obtain ⟨r, hr⟩ := h p
    rw [← hr, List.getElem?_append_right (Nat.le_refl _), Nat.sub_self] at hnext
    obtain ⟨r', rfl⟩ : ∃ r', r = (p, y) :: r' := by
      cases r with
      | nil => cases hnext
      | cons a r' => exact ⟨r', by rw [Option.some.inj hnext]⟩
    exact ⟨r', by simpa using hr⟩
  · simpa [hq] using h q

theorem count_filter_fst [DecidableEq (κ × β)] (l : List (κ × β)) (a : κ × β) :
    Multiset.count a (l.filter (·.1 = a.1)) = Multiset.count a l := by
  rw [← Multiset.filter_coe]
  exact Multiset.count_filter_of_pos rfl

theorem coe_le (h : PortFifo l l') : (l : Multiset (κ × β)) ≤ l' := by
  classical
  rw [Multiset.le_iff_count]
  intro a
  rw [← count_filter_fst l, ← count_filter_fst l']
  exact Multiset.count_le_of_le a (Multiset.coe_le.mpr (h a.1).sublist.subperm)

/-- When nothing is left at any port, the items are the same. -/
theorem coe_eq (h : PortFifo l l')
    (hall : ∀ p, (l'.filter (·.1 = p)).length ≤ (l.filter (·.1 = p)).length) :
    (l : Multiset (κ × β)) = l' := by
  classical
  rw [Multiset.ext]
  intro a
  rw [← count_filter_fst l, ← count_filter_fst l', (h a.1).eq_of_length_le (hall a.1)]

/-- With a single port the items are in order. -/
theorem prefix_of_single (h : PortFifo l l') {p : κ} (hp : ∀ a ∈ l', a.1 = p) : l <+: l' := by
  have hl : ∀ a ∈ l, a.1 = p := by
    intro a ha
    have hmem : a ∈ (l' : Multiset (κ × β)) := Multiset.mem_of_le h.coe_le ha
    exact hp a hmem
  have hfilter : ∀ r : List (κ × β), (∀ a ∈ r, a.1 = p) → r.filter (·.1 = p) = r := by
    intro r hr
    rw [List.filter_eq_self]
    intro a ha
    simpa using hr a ha
  have := h p
  rwa [hfilter l hl, hfilter l' hp] at this

end PortFifo

end PipelineTunnel
