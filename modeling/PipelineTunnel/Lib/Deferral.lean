import Mathlib.Data.List.Basic
import Mathlib.Logic.Function.Basic

/-!
# Work that is put off by name

Entries are created and removed under names, and a name may come back. Work for the entry under
a name is put off, and only the name is remembered. A book records when each entry was created
and when each piece of work was put off, both by the number of entries created so far. While no
entry is created under a name for which work is still put off, the work only ever meets entries
that are older than itself (`Book.Sound`).
-/

namespace PipelineTunnel.Deferral

variable {κ : Type*} [DecidableEq κ]

structure Book (κ : Type*) where
  births : κ → Option Nat
  created : Nat
  queued : List (κ × Nat)

namespace Book

/-- Every entry is older than the work that is put off under its name. -/
structure Sound (b : Book κ) : Prop where
  born : ∀ k n, b.births k = some n → n < b.created
  older : ∀ k since, (k, since) ∈ b.queued → ∀ n, b.births k = some n → n < since

def create (b : Book κ) (k : κ) : Book κ :=
  { b with births := Function.update b.births k (some b.created), created := b.created + 1 }

def putOff (b : Book κ) (k : κ) : Book κ := { b with queued := b.queued ++ [(k, b.created)] }

/-- No work is put off under the name. -/
def Idle (b : Book κ) (k : κ) : Prop := ∀ e ∈ b.queued, e.1 ≠ k

variable {b b' : Book κ} {k : κ}

omit [DecidableEq κ] in
/-- Entries and work that go away, and new orders of what is left. -/
theorem Sound.shrink (h : b.Sound) (hbirths : ∀ k n, b'.births k = some n → b.births k = some n)
    (hcreated : b'.created = b.created) (hqueued : b'.queued ⊆ b.queued) : b'.Sound where
  born k n hn := by
    rw [hcreated]
    exact h.born k n (hbirths k n hn)
  older k since hmem n hn := h.older k since (hqueued hmem) n (hbirths k n hn)

theorem Sound.create (h : b.Sound) (hidle : b.Idle k) : (b.create k).Sound where
  born k' n hn := by
    by_cases hk : k' = k
    · subst hk
      simp only [Book.create, Function.update_self, Option.some.injEq] at hn ⊢
      omega
    · simp only [Book.create, Function.update_of_ne hk] at hn ⊢
      exact Nat.lt_succ_of_lt (h.born k' n hn)
  older k' since hmem n hn := by
    have hk : k' ≠ k := hidle (k', since) hmem
    simp only [Book.create, Function.update_of_ne hk] at hn
    exact h.older k' since hmem n hn

omit [DecidableEq κ] in
/-- Work that is put off now is for an entry that is there already. -/
theorem Sound.putOff (h : b.Sound) (k : κ) : (b.putOff k).Sound where
  born := h.born
  older k' since hmem n hn := by
    rcases List.mem_append.mp hmem with hmem | hmem
    · exact h.older k' since hmem n hn
    · obtain ⟨rfl, rfl⟩ := Prod.mk.inj (List.mem_singleton.mp hmem)
      exact h.born k' n hn

end Book

end PipelineTunnel.Deferral
