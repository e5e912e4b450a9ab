import PipelineTunnel.Common.Framing
import Mathlib.Data.List.Induction

/-!
# The frames behind the bytes

The bytes that a socket took belong to one merge of the two classes of frames. The class of a byte
tells which frame it is of, so there is no other merge with these bytes, and a merge read off
earlier is the beginning of the one read off later.

## Implementation notes

The frames are encodings of items of any type, none of which is empty. `Merged` is a merge of first
parts of the two lists of items.
-/

namespace PipelineTunnel.Common

variable {α : Type*} (enc : α → Bytes)

/-- The items of one class. -/
def itemsOf (items : List (Class × α)) (cls : Class) : List α :=
  (items.filter (·.1 = cls)).map Prod.snd

@[simp] theorem itemsOf_nil (cls : Class) : itemsOf ([] : List (Class × α)) cls = [] := rfl

@[simp] theorem itemsOf_append (items items' : List (Class × α)) (cls : Class) :
    itemsOf (items ++ items') cls = itemsOf items cls ++ itemsOf items' cls := by
  simp [itemsOf]

theorem itemsOf_cons (item : Class × α) (items : List (Class × α)) (cls : Class) :
    itemsOf (item :: items) cls =
      if item.1 = cls then item.2 :: itemsOf items cls else itemsOf items cls := by
  by_cases h : item.1 = cls <;> simp [itemsOf, h]

def encoded (items : List (Class × α)) : List (Class × Bytes) :=
  items.map fun item => (item.1, enc item.2)

/-- The items are first parts of the two lists, in some merge. -/
def Merged (data : Class → List α) (items : List (Class × α)) : Prop :=
  ∀ cls, itemsOf items cls <+: data cls

/-- The bytes of the items, with their classes. -/
def bytesOf (items : List (Class × α)) : List (Class × UInt8) := (encoded enc items).flatMap tagged

variable {enc} {data : Class → List α} {items items' : List (Class × α)}

theorem bytesOf_append : bytesOf enc (items ++ items') = bytesOf enc items ++ bytesOf enc items' := by
  simp [bytesOf, encoded]

theorem framesOf_encoded (items : List (Class × α)) (cls : Class) :
    framesOf (encoded enc items) cls = (itemsOf items cls).map enc := by
  induction items with
  | nil => rfl
  | cons item items ih =>
      have hcons : encoded enc (item :: items) = [(item.1, enc item.2)] ++ encoded enc items := rfl
      rw [hcons, framesOf_append, framesOf_singleton, ih, itemsOf_cons]
      split <;> simp

theorem Merged.of_append (h : Merged data (items ++ items')) : Merged data items := by
  intro cls
  have := h cls
  rw [itemsOf_append] at this
  exact (List.prefix_append _ _).trans this

theorem Merged.mem (h : Merged data items) {item : Class × α} (hitem : item ∈ items) :
    item.2 ∈ data item.1 := by
  apply (h item.1).subset
  simp only [itemsOf, List.mem_map, List.mem_filter]
  exact ⟨item, ⟨hitem, by simp⟩, rfl⟩

/-- Frames in the order of the calls are the encodings of items. -/
theorem exists_items (frames : List (Class × Bytes))
    (h : InOrder (fun cls => (data cls).map enc) frames) :
    ∃ items, frames = encoded enc items ∧ Merged data items := by
  induction frames using List.reverseRecOn with
  | nil => exact ⟨[], rfl, fun _ => List.nil_prefix⟩
  | append_singleton frames frame ih =>
      obtain ⟨items, rfl, hmerged⟩ := ih h.of_append
      obtain ⟨cls, frame⟩ := frame
      obtain ⟨more, hmore⟩ := hmerged cls
      have hframe : framesOf (encoded enc items ++ [(cls, frame)]) cls <+: (data cls).map enc := h cls
      rw [framesOf_append, framesOf_encoded, framesOf_singleton, if_pos rfl, ← hmore,
        List.map_append, List.prefix_append_right_inj] at hframe
      cases more with
      | nil => simp at hframe
      | cons item more =>
          rw [List.map_cons, List.cons_prefix_cons] at hframe
          obtain ⟨rfl, -⟩ := hframe
          refine ⟨items ++ [(cls, item)], by simp [encoded], fun cls' => ?_⟩
          rw [itemsOf_append, itemsOf_cons]
          by_cases hcls : cls = cls'
          · subst hcls
            rw [← hmore]
            simp
          · simpa [hcls] using hmerged cls'

/-- Bytes with their classes tell the items. -/
theorem merged_prefix (items : List (Class × α)) : ∀ {data : Class → List α}
    {items' : List (Class × α)}, (∀ cls, ∀ item ∈ data cls, enc item ≠ []) →
    Merged data items → Merged data items' → bytesOf enc items <+: bytesOf enc items' →
    items <+: items' := by
  induction items with
  | nil => exact fun _ _ _ _ => List.nil_prefix
  | cons item items ih =>
      intro data items' hfilled h h' hbytes
      obtain ⟨cls, item⟩ := item
      have hfirst := h cls
      rw [itemsOf_cons, if_pos rfl] at hfirst
      obtain ⟨more, hdata⟩ := hfirst
      have hne : enc item ≠ [] := hfilled cls item (by rw [← hdata]; simp)
      obtain ⟨byte, bytes, henc⟩ := List.exists_cons_of_ne_nil hne
      cases items' with
      | nil => simp [bytesOf, encoded, tagged, henc] at hbytes
      | cons item' items' =>
          obtain ⟨cls', item'⟩ := item'
          have hfirst' := h' cls'
          rw [itemsOf_cons, if_pos rfl] at hfirst'
          obtain ⟨more', hdata'⟩ := hfirst'
          have hne' : enc item' ≠ [] := hfilled cls' item' (by rw [← hdata']; simp)
          obtain ⟨byte', bytes', henc'⟩ := List.exists_cons_of_ne_nil hne'
          -- the class of the first byte is that of the first item
          obtain rfl : cls = cls' := by
            simp only [bytesOf, encoded, List.map_cons, List.flatMap_cons, tagged, henc, henc',
              List.cons_append, List.cons_prefix_cons] at hbytes
            exact (Prod.mk.inj hbytes.1).1
          rw [← hdata, List.cons_append, List.cons_append, List.cons.injEq] at hdata'
          obtain ⟨rfl, hrest⟩ := hdata'
          rw [List.cons_prefix_cons]
          refine ⟨rfl, @ih (Function.update data cls (itemsOf items cls ++ more)) items' ?_ ?_ ?_ ?_⟩
          · intro cls' a ha
            by_cases hcls : cls' = cls
            · subst hcls
              rw [Function.update_self] at ha
              exact hfilled cls' a (by rw [← hdata]; exact List.mem_cons_of_mem _ ha)
            · rw [Function.update_of_ne hcls] at ha
              exact hfilled cls' a ha
          · intro cls'
            by_cases hcls : cls' = cls
            · subst hcls
              rw [Function.update_self]
              exact List.prefix_append _ _
            · rw [Function.update_of_ne hcls]
              simpa [itemsOf_cons, Ne.symm hcls] using h cls'
          · intro cls'
            by_cases hcls : cls' = cls
            · subst hcls
              rw [Function.update_self, ← hrest]
              exact List.prefix_append _ _
            · rw [Function.update_of_ne hcls]
              simpa [itemsOf_cons, Ne.symm hcls] using h' cls'
          · simp only [bytesOf, encoded, List.map_cons, List.flatMap_cons] at hbytes
            exact (List.prefix_append_right_inj _).mp hbytes

/-! ## What the socket took stays taken -/

section Taken

variable {sock : Socket} {s s' : Channel}

theorem prefix_took (s : Channel) (cls : Class) (bytes : Bytes) :
    s.taken <+: (s.took cls bytes).taken :=
  List.prefix_append _ _

theorem taken_flushPriorityUnlocked {fuel : Nat} {ok : Bool}
    (h : flushPriorityUnlocked sock fuel s = some (s', ok)) : s.taken <+: s'.taken := by
  fun_induction flushPriorityUnlocked sock fuel s with
  | case1 => cases h
  | case2 =>
      cases h
      exact List.prefix_rfl
  | case3 fuel s msg rest _ n _ _ ih => exact (prefix_took s _ _).trans (ih h)
  | case4 fuel s msg rest _ n _ _ ih => exact (prefix_took s _ _).trans (ih h)
  | case5 | case6 =>
      cases h
      exact List.prefix_rfl

theorem taken_flushUnlockedLoop {bound fuel : Nat} {ok : Bool}
    (h : flushUnlockedLoop sock bound fuel s = some (s', ok)) : s.taken <+: s'.taken := by
  fun_induction flushUnlockedLoop sock bound fuel s with
  | case1 => cases h
  | case2 => exact taken_flushPriorityUnlocked h
  | case3 => cases h
  | case4 fuel s front rest _ n _ _ t _ s₁ hpriority =>
      cases h
      have htook : s.taken <+: t.taken := prefix_took s _ _
      exact htook.trans (taken_flushPriorityUnlocked hpriority)
  | case5 fuel s front rest _ n _ _ t _ s₁ hpriority ih =>
      have htook : s.taken <+: t.taken := prefix_took s _ _
      exact (htook.trans (taken_flushPriorityUnlocked hpriority)).trans (ih h)
  | case6 fuel s front rest _ n _ _ t _ ih => exact (prefix_took s _ _).trans (ih h)
  | case7 fuel s front rest _ n _ _ ih => exact (prefix_took s _ _).trans (ih h)
  | case8 | case9 =>
      cases h
      exact List.prefix_rfl

theorem taken_writeDirect (data : Bytes) : s.taken <+: (writeDirect sock s data).1.taken := by
  rw [writeDirect]
  split
  · exact List.prefix_rfl
  · exact List.prefix_rfl
  · split
    · exact prefix_took s _ _
    · exact prefix_took s _ _

theorem taken_write {data : Bytes} {r : Int} (h : write sock s data = some (s', r)) :
    s.taken <+: s'.taken := by
  rw [write] at h
  split_ifs at h with hqueued
  · cases hflush : flushUnlocked sock s with
    | none => simp [hflush] at h
    | some result =>
        obtain ⟨s₁, ok⟩ := result
        have htaken : s.taken <+: s₁.taken := taken_flushUnlockedLoop hflush
        simp only [hflush] at h
        split_ifs at h with hleft
        · cases h
          exact htaken
        · have hdirect : s₁.taken <+: (writeDirect sock s₁ data).1.taken := taken_writeDirect data
          rw [Option.some.inj h] at hdirect
          exact htaken.trans hdirect
  · have hdirect : s.taken <+: (writeDirect sock s data).1.taken := taken_writeDirect data
    rw [Option.some.inj h] at hdirect
    exact hdirect

theorem Usage.taken_step {u u' : Usage} {o : Op} (h : u.step sock o = some u') :
    u.channel.taken <+: u'.channel.taken := by
  cases o with
  | write data =>
      simp only [Usage.step] at h
      cases hwrite : write sock u.channel data with
      | none => simp [hwrite] at h
      | some result =>
          obtain ⟨s, r⟩ := result
          simp only [hwrite] at h
          split_ifs at h
          · cases h
            exact taken_write hwrite
          · cases h
            exact taken_write hwrite
  | writePriority data =>
      cases h
      exact List.prefix_rfl
  | flush =>
      simp only [Usage.step, Option.map_eq_some_iff] at h
      obtain ⟨result, hflush, rfl⟩ := h
      exact taken_flushUnlockedLoop hflush

end Taken

/-! ## Clean calls -/

theorem Usage.Whole.start : Usage.Whole {} := by
  refine ⟨⟨.nil, .nil, rfl, rfl, rfl⟩, .inl (.inl ⟨⟨[], fun _ => [], rfl, ?_⟩, rfl⟩)⟩
  intro cls
  cases cls <;> exact ⟨rfl, rfl⟩

/-- The frame that a call hands over as normal data. -/
def Op.normalData : Op → List Bytes
  | .write data => [data]
  | .writePriority _ | .flush => []

/-- The frame that a call hands over as priority data. -/
def Op.priorityData : Op → List Bytes
  | .writePriority data => [data]
  | .write _ | .flush => []

/-- The calls hand over their frames. -/
theorem Usage.Whole.data_step {sock : Socket} (hsock : sock.NoErrors) {u u' : Usage} (h : u.Whole)
    {o : Op} (hclean : o.Clean sock u.channel) (hstep : u.step sock o = some u') :
    u'.written = u.written ++ o.normalData ∧ u'.queued = u.queued ++ o.priorityData := by
  cases o with
  | write data =>
      simp only [Usage.step] at hstep
      cases hwrite : Common.write sock u.channel data with
      | none => simp [hwrite] at hstep
      | some result =>
          obtain ⟨s, r⟩ := result
          obtain ⟨hr, -⟩ := h.write hsock hclean hwrite
          simp only [hwrite, if_pos hr] at hstep
          cases hstep
          exact ⟨rfl, (List.append_nil _).symm⟩
  | writePriority data =>
      cases hstep
      exact ⟨(List.append_nil _).symm, rfl⟩
  | flush =>
      simp only [Usage.step, Option.map_eq_some_iff] at hstep
      obtain ⟨result, -, rfl⟩ := hstep
      exact ⟨(List.append_nil _).symm, (List.append_nil _).symm⟩

/-- What a socket took of clean calls is the beginning of a merge of their frames. -/
theorem Usage.Whole.exists_merged {u : Usage} (h : u.Whole)
    (hdata : ∀ cls, u.data cls = (data cls).map enc) :
    ∃ items, Merged data items ∧ stream u.channel.taken <+: bytesOf enc items := by
  have hsending : ∃ under, Sending u.channel u.data under := by
    rcases h.steady with (⟨hidle, -⟩ | ⟨rest, hpriority, -⟩) | ⟨rest, hnormal, -⟩
    · exact ⟨_, hidle⟩
    · exact ⟨_, hpriority⟩
    · exact ⟨_, hnormal⟩
  obtain ⟨under, frames, later, hstream, hqueues⟩ := hsending
  have horder : InOrder (fun cls => (data cls).map enc) frames := by
    intro cls
    change framesOf frames cls <+: (data cls).map enc
    rw [← hdata, (hqueues cls).1]
    exact List.prefix_append _ _
  obtain ⟨items, rfl, hmerged⟩ := exists_items frames horder
  exact ⟨items, hmerged, ⟨_, hstream⟩⟩

/-- With empty queues it is a merge of all frames. -/
theorem Usage.Whole.exists_merged_of_empty {u : Usage} (h : u.Whole)
    (hdata : ∀ cls, u.data cls = (data cls).map enc) (hnormal : u.channel.buf.chunks = [])
    (hpriority : u.channel.buf.priorityChunks = []) :
    ∃ items, Merged data items ∧ (∀ cls, (itemsOf items cls).length = (data cls).length) ∧
      stream u.channel.taken = bytesOf enc items := by
  have hpending : ∀ cls, u.channel.pending cls = [] := by
    intro cls
    cases cls with
    | normal => simp [Channel.pending, hnormal, pendingOf]
    | priority => simp [Channel.pending, hpriority, pendingOf]
  obtain ⟨frames, later, hstream, hqueues⟩ := (h.steady.between hnormal).done hpriority |>.1
  have hnone : ∀ cls, later cls = [] := by
    intro cls
    have := (hqueues cls).2
    rw [hpending] at this
    simpa using this.symm
  have horder : InOrder (fun cls => (data cls).map enc) frames := by
    intro cls
    change framesOf frames cls <+: (data cls).map enc
    rw [← hdata, (hqueues cls).1]
    exact List.prefix_append _ _
  obtain ⟨items, rfl, hmerged⟩ := exists_items frames horder
  refine ⟨items, hmerged, fun cls => ?_, by simpa [bytesOf] using hstream⟩
  have hall := (hqueues cls).1
  rw [hnone, List.append_nil, framesOf_encoded, hdata] at hall
  have hlen := congrArg List.length hall
  simpa using hlen.symm

end PipelineTunnel.Common
