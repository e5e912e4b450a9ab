import Mathlib.Data.List.Pairwise
import Mathlib.Data.List.Sort
import Mathlib.Data.List.Nodup
import Mathlib.Data.List.Perm.Subperm

/-!
# Ordered maps

A map is its list of entries in strictly increasing key order, as an iteration
over a `std::map` visits them. Equality, lookup and the entries of an interval of
keys all follow from membership in that list.
-/

namespace PipelineTunnel

/-- A finite map whose entries are kept in increasing key order. -/
structure SortedMap (α β : Type*) [LinearOrder α] where
  entries : List (α × β)
  sorted : entries.Pairwise fun a b => a.1 < b.1

namespace SortedMap

variable {α β : Type*} [LinearOrder α]

instance : EmptyCollection (SortedMap α β) := ⟨⟨[], List.Pairwise.nil⟩⟩

instance : Membership (α × β) (SortedMap α β) := ⟨fun m e => e ∈ m.entries⟩

def size (m : SortedMap α β) : Nat := m.entries.length

/-- The value stored under a key. -/
def find? (m : SortedMap α β) (k : α) : Option β :=
  (m.entries.find? fun e => decide (e.1 = k)).map Prod.snd

/-- The entries with a key between two bounds, in key order. -/
def range (m : SortedMap α β) (lo hi : α) : List (α × β) :=
  m.entries.filter fun e => decide (lo ≤ e.1 ∧ e.1 ≤ hi)

/-- Remove the entries with a key between two bounds. -/
def eraseRange (m : SortedMap α β) (lo hi : α) : SortedMap α β :=
  ⟨m.entries.filter fun e => !decide (lo ≤ e.1 ∧ e.1 ≤ hi), m.sorted.filter _⟩

/-- Store a value under a key, in place of the one that was there. -/
def insert (m : SortedMap α β) (k : α) (v : β) : SortedMap α β where
  entries := (m.entries.filter fun e => decide (e.1 < k)) ++
    (k, v) :: m.entries.filter fun e => decide (k < e.1)
  sorted := by
    rw [List.pairwise_append]
    refine ⟨m.sorted.filter _, List.pairwise_cons.mpr ⟨?_, m.sorted.filter _⟩, ?_⟩
    · intro e he
      exact of_decide_eq_true (List.mem_filter.mp he).2
    · intro a ha b hb
      have hak : a.1 < k := of_decide_eq_true (List.mem_filter.mp ha).2
      rcases List.mem_cons.mp hb with rfl | hb
      · exact hak
      · exact hak.trans (of_decide_eq_true (List.mem_filter.mp hb).2)

theorem mem_iff {m : SortedMap α β} {e : α × β} : e ∈ m ↔ e ∈ m.entries := Iff.rfl

@[simp] theorem not_mem_empty (e : α × β) : e ∉ (∅ : SortedMap α β) :=
  List.not_mem_nil

/-- A key has one value. -/
theorem eq_of_mem {m : SortedMap α β} {k : α} {v w : β} (hv : (k, v) ∈ m) (hw : (k, w) ∈ m) :
    v = w := by
  have hkeys : m.entries.Pairwise fun a b => a.1 ≠ b.1 := m.sorted.imp ne_of_lt
  have : Std.Symm fun a b : α × β => a.1 ≠ b.1 := ⟨fun _ _ h => h.symm⟩
  by_contra hne
  exact hkeys.forall hv hw (fun h => hne (Prod.ext_iff.mp h).2) rfl

theorem find?_eq_some {m : SortedMap α β} {k : α} {v : β} :
    m.find? k = some v ↔ (k, v) ∈ m := by
  constructor
  · intro h
    obtain ⟨⟨k', v'⟩, hfind, rfl⟩ := Option.map_eq_some_iff.mp h
    have hk : k' = k := by simpa using List.find?_some hfind
    exact hk ▸ List.mem_of_find?_eq_some hfind
  · intro h
    cases hfind : m.entries.find? fun e => decide (e.1 = k) with
    | none =>
        have := List.find?_eq_none.mp hfind (k, v) h
        simp at this
    | some e =>
        obtain ⟨k', v'⟩ := e
        have hk : k' = k := by simpa using List.find?_some hfind
        have hv : v' = v := eq_of_mem (hk ▸ List.mem_of_find?_eq_some hfind) h
        simp [find?, hfind, hv]

theorem find?_eq_none {m : SortedMap α β} {k : α} :
    m.find? k = none ↔ ∀ v, (k, v) ∉ m := by
  rw [Option.eq_none_iff_forall_ne_some]
  exact forall_congr' fun v => not_congr find?_eq_some

@[simp] theorem mem_insert {m : SortedMap α β} {k k' : α} {v v' : β} :
    (k', v') ∈ m.insert k v ↔ (k' = k ∧ v' = v) ∨ (k' ≠ k ∧ (k', v') ∈ m) := by
  simp only [mem_iff, insert, List.mem_append, List.mem_cons, List.mem_filter,
    decide_eq_true_eq, Prod.mk.injEq]
  constructor
  · rintro (⟨h, hlt⟩ | h | ⟨h, hlt⟩)
    · exact Or.inr ⟨ne_of_lt hlt, h⟩
    · exact Or.inl h
    · exact Or.inr ⟨ne_of_gt hlt, h⟩
  · rintro (h | ⟨hne, h⟩)
    · exact Or.inr (Or.inl h)
    · rcases lt_or_gt_of_ne hne with hlt | hgt
      · exact Or.inl ⟨h, hlt⟩
      · exact Or.inr (Or.inr ⟨h, hgt⟩)

@[simp] theorem mem_eraseRange {m : SortedMap α β} {lo hi : α} {e : α × β} :
    e ∈ m.eraseRange lo hi ↔ e ∈ m ∧ ¬(lo ≤ e.1 ∧ e.1 ≤ hi) := by
  rw [mem_iff, eraseRange, List.mem_filter, Bool.not_eq_true', decide_eq_false_iff_not]
  exact Iff.rfl

/-- Taking the entries of an interval out leaves the others. -/
theorem size_eraseRange (m : SortedMap α β) (lo hi : α) :
    (m.range lo hi).length + (m.eraseRange lo hi).size = m.size := by
  rw [range, size, eraseRange, size]
  exact (List.length_eq_length_filter_add _).symm

/-- The entries of an interval and the others are all entries. -/
theorem range_append_eraseRange_perm (m : SortedMap α β) (lo hi : α) :
    (m.range lo hi ++ (m.eraseRange lo hi).entries).Perm m.entries :=
  List.filter_append_perm _ m.entries

/-- The entries under other keys. -/
def others (m : SortedMap α β) (k : α) : List (α × β) := m.entries.filter fun e => e.1 ≠ k

theorem nodup_entries (m : SortedMap α β) : m.entries.Nodup := by
  apply m.sorted.imp
  rintro a b hlt rfl
  exact lt_irrefl a.1 hlt

theorem nodup_cons_others (m : SortedMap α β) (k : α) (v : β) : ((k, v) :: m.others k).Nodup := by
  rw [List.nodup_cons]
  refine ⟨fun hmem => ?_, m.nodup_entries.filter _⟩
  simpa using (List.mem_filter.mp hmem).2

theorem insert_perm (m : SortedMap α β) (k : α) (v : β) :
    (m.insert k v).entries.Perm ((k, v) :: m.others k) := by
  rw [List.perm_ext_iff_of_nodup (m.insert k v).nodup_entries (m.nodup_cons_others k v)]
  rintro ⟨k', v'⟩
  rw [← mem_iff, mem_insert, List.mem_cons, others, List.mem_filter, Prod.mk.injEq,
    decide_eq_true_eq, and_comm (a := (k', v') ∈ m.entries)]
  rfl

theorem entries_perm_of_find?_eq_some {m : SortedMap α β} {k : α} {v : β} (h : m.find? k = some v) :
    m.entries.Perm ((k, v) :: m.others k) := by
  rw [List.perm_ext_iff_of_nodup m.nodup_entries (m.nodup_cons_others k v)]
  rintro ⟨k', v'⟩
  rw [List.mem_cons, others, List.mem_filter, Prod.mk.injEq, decide_eq_true_eq]
  have hv := find?_eq_some.mp h
  constructor
  · intro hmem
    by_cases hk : k' = k
    · subst hk
      exact Or.inl ⟨rfl, eq_of_mem hmem hv⟩
    · exact Or.inr ⟨hmem, hk⟩
  · rintro (⟨rfl, rfl⟩ | ⟨hmem, -⟩)
    · exact hv
    · exact hmem

theorem others_eq_of_find?_eq_none {m : SortedMap α β} {k : α} (h : m.find? k = none) :
    m.others k = m.entries := by
  rw [others, List.filter_eq_self]
  intro e he
  simp only [decide_eq_true_eq]
  rintro rfl
  exact find?_eq_none.mp h e.2 he

/-- The entries of an interval are determined by their membership. -/
theorem range_eq {m : SortedMap α β} {lo hi : α} {l : List (α × β)}
    (hl : l.Pairwise fun a b => a.1 < b.1)
    (hmem : ∀ e, e ∈ l ↔ e ∈ m ∧ lo ≤ e.1 ∧ e.1 ≤ hi) : m.range lo hi = l := by
  have : Std.Irrefl fun a b : α × β => a.1 < b.1 := ⟨fun a => lt_irrefl a.1⟩
  have : Std.Antisymm fun a b : α × β => a.1 < b.1 :=
    ⟨fun a b hab hba => absurd hba (lt_asymm hab)⟩
  refine List.Pairwise.eq_of_mem_iff (m.sorted.filter _) hl fun e => ?_
  rw [range, List.mem_filter, hmem, decide_eq_true_eq]
  exact Iff.rfl

/-- A map with `n` different keys has at least `n` entries. -/
theorem le_size {m : SortedMap α β} {n : Nat} {f : Nat → α}
    (hinj : ∀ i < n, ∀ j < n, f i = f j → i = j) (hmem : ∀ j < n, ∃ v, (f j, v) ∈ m) :
    n ≤ m.size := by
  have hnodup : ((List.range n).map f).Nodup := by
    apply List.Nodup.map_on _ List.nodup_range
    intro i hi j hj heq
    exact hinj i (List.mem_range.mp hi) j (List.mem_range.mp hj) heq
  have hsub : (List.range n).map f ⊆ m.entries.map Prod.fst := by
    intro k hk
    obtain ⟨j, hj, rfl⟩ := List.mem_map.mp hk
    obtain ⟨v, hv⟩ := hmem j (List.mem_range.mp hj)
    exact List.mem_map.mpr ⟨(f j, v), hv, rfl⟩
  simpa [size] using (hnodup.subperm hsub).length_le

theorem eq_empty_of_forall_not_mem {m : SortedMap α β} (h : ∀ e, e ∉ m) : m = ∅ := by
  cases m with
  | mk entries sorted =>
      have hnil : entries = [] := List.eq_nil_iff_forall_not_mem.mpr h
      subst hnil
      rfl

end SortedMap

end PipelineTunnel
