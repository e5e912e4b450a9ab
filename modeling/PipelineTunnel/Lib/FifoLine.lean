import Mathlib.Data.List.Basic
import Mathlib.Logic.Function.Basic

/-!
# Items on a line of stages

Every stage has an inbox and an outbox, both first in first out. A stage handles the
head of its inbox when its outbox is empty, and passes the results on from the outbox.
A line is a list of stages in the order an item visits them. `inTransit` lists what is
on the line, each item as it will look at the end, the one closest to the end first:
handling an item or passing it on within the line does not change that list.
-/

namespace PipelineTunnel.FifoLine

variable {ι α : Type*}

@[ext]
structure Stages (ι α : Type*) where
  inbox : ι → List α
  outbox : ι → List α

/-- What an item becomes on a line; `none` for an item that a stage drops. -/
def through (f : ι → α → Option α) : List ι → α → Option α
  | [], x => some x
  | m :: l, x => (f m x).bind (through f l)

def inTransit (f : ι → α → Option α) (s : Stages ι α) : List ι → List α
  | [] => []
  | m :: l =>
      inTransit f s l ++ (s.outbox m).filterMap (through f l) ++
        (s.inbox m).filterMap (through f (m :: l))

namespace Stages

variable [DecidableEq ι]

def post (s : Stages ι α) (m : ι) (x : α) : Stages ι α :=
  { s with inbox := Function.update s.inbox m (s.inbox m ++ [x]) }

/-- Stage `m` has taken the head of its inbox, `rest` is left, and produced `ys`. -/
def handle (s : Stages ι α) (m : ι) (rest ys : List α) : Stages ι α where
  inbox := Function.update s.inbox m rest
  outbox := Function.update s.outbox m ys

def setOutbox (s : Stages ι α) (m : ι) (rest : List α) : Stages ι α :=
  { s with outbox := Function.update s.outbox m rest }

end Stages

variable {f : ι → α → Option α} {s s' : Stages ι α} {line : List ι}

theorem inTransit_congr (hin : ∀ m ∈ line, s'.inbox m = s.inbox m)
    (hout : ∀ m ∈ line, s'.outbox m = s.outbox m) :
    inTransit f s' line = inTransit f s line := by
  induction line with
  | nil => rfl
  | cons m l ih =>
      simp only [inTransit, hin m List.mem_cons_self, hout m List.mem_cons_self]
      rw [ih (fun q hq => hin q (List.mem_cons_of_mem m hq))
        (fun q hq => hout q (List.mem_cons_of_mem m hq))]

/-- Nothing is on a line whose boxes are empty. -/
theorem inTransit_empty (hin : ∀ m ∈ line, s.inbox m = [])
    (hout : ∀ m ∈ line, s.outbox m = []) : inTransit f s line = [] := by
  induction line with
  | nil => rfl
  | cons m l ih =>
      rw [inTransit, hin m List.mem_cons_self, hout m List.mem_cons_self,
        ih (fun q hq => hin q (List.mem_cons_of_mem m hq))
          (fun q hq => hout q (List.mem_cons_of_mem m hq))]
      rfl

variable [DecidableEq ι] {m q : ι} {l : List ι}

theorem inTransit_post_of_notMem (x : α) (h : q ∉ line) :
    inTransit f (s.post q x) line = inTransit f s line := by
  apply inTransit_congr
  · intro m hm
    exact Function.update_of_ne (show m ≠ q from fun heq => h (heq ▸ hm)) _ _
  · exact fun _ _ => rfl

theorem inTransit_setOutbox_of_notMem (rest : List α) (h : q ∉ line) :
    inTransit f (s.setOutbox q rest) line = inTransit f s line := by
  apply inTransit_congr
  · exact fun _ _ => rfl
  · intro m hm
    exact Function.update_of_ne (show m ≠ q from fun heq => h (heq ▸ hm)) _ _

theorem inTransit_handle_of_notMem (rest ys : List α) (h : q ∉ line) :
    inTransit f (s.handle q rest ys) line = inTransit f s line := by
  apply inTransit_congr
  · intro m hm
    exact Function.update_of_ne (show m ≠ q from fun heq => h (heq ▸ hm)) _ _
  · intro m hm
    exact Function.update_of_ne (show m ≠ q from fun heq => h (heq ▸ hm)) _ _

/-- An item that enters the line comes after everything on it. -/
theorem inTransit_post (x : α) (h : (m :: l).Nodup) :
    inTransit f (s.post m x) (m :: l) =
      inTransit f s (m :: l) ++ (through f (m :: l) x).toList := by
  have hm : m ∉ l := (List.nodup_cons.mp h).1
  have hin : (s.post m x).inbox m = s.inbox m ++ [x] := Function.update_self _ _ _
  simp only [inTransit, inTransit_post_of_notMem x hm, hin, List.filterMap_append]
  cases h : through f (m :: l) x <;> simp [Stages.post, h]

/-- Handling the head of an inbox leaves the items on the line as they are. -/
theorem inTransit_handle {x : α} {rest : List α} (h : line.Nodup) (hm : m ∈ line)
    (hin : s.inbox m = x :: rest) (hout : s.outbox m = []) :
    inTransit f (s.handle m rest (f m x).toList) line = inTransit f s line := by
  induction line with
  | nil => simp at hm
  | cons q l ih =>
      obtain ⟨hq, hl⟩ := List.nodup_cons.mp h
      by_cases hqm : q = m
      · subst hqm
        rw [inTransit, inTransit, inTransit_handle_of_notMem _ _ hq, hin, hout]
        simp only [Stages.handle, Function.update_self, List.filterMap_nil, List.append_nil,
          List.append_assoc]
        congr 1
        cases hx : f q x with
        | none => simp [through, hx]
        | some y => cases hy : through f l y <;> simp [through, hx, hy]
      · have hmem : m ∈ l := (List.mem_cons.mp hm).resolve_left fun heq => hqm heq.symm
        simp only [inTransit, ih hl hmem]
        simp only [Stages.handle, Function.update_of_ne hqm]

/-- Passing an item to the next stage leaves the items on the line as they are. -/
theorem inTransit_forward {x : α} {rest : List α} {before : List ι}
    (h : (before ++ m :: q :: l).Nodup) (hout : s.outbox m = x :: rest) :
    inTransit f ((s.setOutbox m rest).post q x) (before ++ m :: q :: l) =
      inTransit f s (before ++ m :: q :: l) := by
  induction before with
  | nil =>
      obtain ⟨hm, hq⟩ := List.nodup_cons.mp h
      have hqm : m ≠ q := fun heq => hm (heq ▸ List.mem_cons_self)
      rw [List.nil_append, inTransit, inTransit_post x hq, inTransit_setOutbox_of_notMem rest hm]
      have hline : inTransit f s (m :: q :: l) = inTransit f s (q :: l) ++
          (x :: rest).filterMap (through f (q :: l)) ++
          (s.inbox m).filterMap (through f (m :: q :: l)) := by rw [inTransit, hout]
      rw [hline]
      simp only [Stages.post, Stages.setOutbox, Function.update_self, Function.update_of_ne hqm]
      cases hx : through f (q :: l) x <;> simp [hx]
  | cons b before ih =>
      obtain ⟨hb, hrest⟩ := List.nodup_cons.mp h
      have hbm : b ≠ m := fun heq => hb (heq ▸ by simp)
      have hbq : b ≠ q := fun heq => hb (heq ▸ by simp)
      rw [List.cons_append, inTransit, inTransit, ih hrest]
      simp only [Stages.post, Stages.setOutbox, Function.update_of_ne hbm,
        Function.update_of_ne hbq]

/-- The last stage passes on the first item of the line. -/
theorem inTransit_exit {x : α} {rest : List α} {before : List ι}
    (h : (before ++ [m]).Nodup) (hout : s.outbox m = x :: rest) :
    inTransit f s (before ++ [m]) =
      x :: inTransit f (s.setOutbox m rest) (before ++ [m]) := by
  induction before with
  | nil =>
      have hthrough : through f ([] : List ι) = some := rfl
      simp [inTransit, hout, Stages.setOutbox, hthrough]
  | cons b before ih =>
      obtain ⟨hb, hrest⟩ := List.nodup_cons.mp h
      have hbm : b ≠ m := fun heq => hb (heq ▸ by simp)
      rw [List.cons_append, inTransit, inTransit, ih hrest]
      simp only [Stages.setOutbox, Function.update_of_ne hbm, List.cons_append]

end PipelineTunnel.FifoLine
