import Mathlib.Algebra.Order.Field.Basic
import Mathlib.Algebra.Order.BigOperators.Group.List
import Mathlib.Tactic.Linarith
import Mathlib.Tactic.Ring

/-!
# Spending at a bounded rate

An account holds at most `burst`. What accrues to it is proportional to the time that passes,
and only what it holds can be spent. In every window of time, what is spent is at most `burst`
and what accrues in the window (`Account.windows`).
-/

namespace PipelineTunnel.RateBound

variable {K : Type*} [Field K] [LinearOrder K]

/-- What a log of times and amounts spends behind `start`. -/
def spentAfter (log : List (K × K)) (start : K) : K :=
  ((log.filter fun e => start < e.1).map Prod.snd).sum

/-- What it spends in the window from `start`, which does not count, to `stop`. -/
def spentIn (log : List (K × K)) (start stop : K) : K :=
  ((log.filter fun e => start < e.1 ∧ e.1 ≤ stop).map Prod.snd).sum

theorem spentAfter_concat (log : List (K × K)) (time amount start : K) :
    spentAfter (log ++ [(time, amount)]) start =
      spentAfter log start + if start < time then amount else 0 := by
  rw [spentAfter, List.filter_append, List.map_append, List.sum_append, ← spentAfter]
  by_cases h : start < time <;> simp [h]

theorem spentIn_concat (log : List (K × K)) (time amount start stop : K) :
    spentIn (log ++ [(time, amount)]) start stop =
      spentIn log start stop + if start < time ∧ time ≤ stop then amount else 0 := by
  rw [spentIn, List.filter_append, List.map_append, List.sum_append, ← spentIn]
  by_cases h : start < time ∧ time ≤ stop <;> simp [h]

/-- Nothing is spent behind the last entry. -/
theorem spentAfter_eq_zero {log : List (K × K)} {start : K} (h : ∀ e ∈ log, e.1 ≤ start) :
    spentAfter log start = 0 := by
  have hnone : (log.filter fun e => start < e.1) = [] := by
    rw [List.filter_eq_nil_iff]
    intro e he
    simpa using h e he
  rw [spentAfter, hnone, List.map_nil, List.sum_nil]

theorem spentIn_eq_spentAfter {log : List (K × K)} {start stop : K} (h : ∀ e ∈ log, e.1 ≤ stop) :
    spentIn log start stop = spentAfter log start := by
  have hsame : (log.filter fun e => start < e.1 ∧ e.1 ≤ stop) =
      log.filter fun e => start < e.1 := by
    apply List.filter_congr
    intro e he
    simp [h e he]
  rw [spentIn, hsame, spentAfter]

/-- An account with `level` at `time`, and the log of what was spent. -/
structure Account (burst rate level time : K) (log : List (K × K)) : Prop where
  nonneg : 0 ≤ level
  capped : level ≤ burst
  past : ∀ e ∈ log, e.1 ≤ time
  after : ∀ start ≤ time, spentAfter log start + level ≤ burst + rate * (time - start)
  windows : ∀ start stop, start ≤ stop → spentIn log start stop ≤ burst + rate * (stop - start)

namespace Account

variable [IsStrictOrderedRing K] {burst rate level time : K} {log : List (K × K)}

theorem init (hburst : 0 ≤ burst) (hrate : 0 ≤ rate) (time : K) :
    Account burst rate burst time [] where
  nonneg := hburst
  capped := le_refl burst
  past e he := absurd he List.not_mem_nil
  after start hle := by
    have := mul_nonneg hrate (sub_nonneg.mpr hle)
    rw [spentAfter_eq_zero fun e he => absurd he List.not_mem_nil]
    linarith
  windows start stop hle := by
    have := mul_nonneg hrate (sub_nonneg.mpr hle)
    rw [spentIn_eq_spentAfter fun e he => absurd he List.not_mem_nil,
      spentAfter_eq_zero fun e he => absurd he List.not_mem_nil]
    linarith

/-- Time passes; what accrues fits. -/
theorem accrue (h : Account burst rate level time log) (hrate : 0 ≤ rate) {time' : K}
    (hle : time ≤ time') (hroom : rate * (time' - time) ≤ burst - level) :
    Account burst rate (level + rate * (time' - time)) time' log where
  nonneg := add_nonneg h.nonneg (mul_nonneg hrate (sub_nonneg.mpr hle))
  capped := by linarith
  past e he := (h.past e he).trans hle
  after start hstart := by
    rcases le_total start time with hbefore | hbehind
    · have hafter := h.after start hbefore
      calc
        spentAfter log start + (level + rate * (time' - time))
            = spentAfter log start + level + rate * (time' - time) := by ring
        _ ≤ burst + rate * (time - start) + rate * (time' - time) := by linarith
        _ = burst + rate * (time' - start) := by ring
    · have := mul_nonneg hrate (sub_nonneg.mpr hstart)
      rw [spentAfter_eq_zero fun e he => (h.past e he).trans hbehind]
      linarith
  windows := h.windows

/-- Something is spent now; no window that ends earlier notices. -/
theorem spend (h : Account burst rate level time log) (hrate : 0 ≤ rate) {amount : K}
    (hamount : 0 ≤ amount) (hle : amount ≤ level) :
    Account burst rate (level - amount) time (log ++ [(time, amount)]) := by
  have hpast : ∀ e ∈ log ++ [(time, amount)], e.1 ≤ time := by
    intro e he
    rcases List.mem_append.mp he with he | he
    · exact h.past e he
    · rw [List.mem_singleton.mp he]
  have hafter : ∀ start ≤ time, spentAfter (log ++ [(time, amount)]) start + (level - amount) ≤
      burst + rate * (time - start) := by
    intro start hstart
    have hold := h.after start hstart
    rw [spentAfter_concat]
    split_ifs <;> linarith
  refine ⟨sub_nonneg.mpr hle, by linarith [h.capped], hpast, hafter, fun start stop hwindow => ?_⟩
  by_cases hstop : time ≤ stop
  · have hrest := mul_nonneg hrate (sub_nonneg.mpr hwindow)
    rw [spentIn_eq_spentAfter fun e he => (hpast e he).trans hstop]
    rcases le_total start time with hstart | hstart
    · have hbound := hafter start hstart
      have hmore : rate * (time - start) ≤ rate * (stop - start) :=
        mul_le_mul_of_nonneg_left (by linarith) hrate
      linarith
    · rw [spentAfter_eq_zero fun e he => (hpast e he).trans hstart]
      linarith [h.nonneg, h.capped]
  · rw [spentIn_concat, if_neg fun hin => hstop hin.2, add_zero]
    exact h.windows start stop hwindow

end Account

end PipelineTunnel.RateBound
