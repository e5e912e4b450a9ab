import PipelineTunnel.Conn.Model

/-!
# What a connection carries

As long as the steps are clean, the reader at one end has handled the beginning of a merge of the
frames that the other end handed to its writer, whatever the sockets take and however the reads cut
the bytes.
-/

namespace PipelineTunnel.Conn

open Protocol
open Common (Op Socket Usage bytesOf itemsOf Merged)
open Wire (Handled Reader Role WireFrame)
open Wire.Reader (Passed Settled stream)

/-! ## The two classes of frames -/

/-- `wire_write` and the heartbeat write normal data, `send_control` and the acknowledgement
priority data. -/
def OfClass : Common.Class → WireFrame → Prop
  | .normal, .data _ _ | .normal, .ping | .normal, .pong => True
  | .priority, .control _ _ | .priority, .dataAck _ => True
  | _, _ => False

theorem OfClass.plain {cls : Common.Class} {f : WireFrame} (h : OfClass cls f) : f.plain = true := by
  cases cls <;> cases f <;> first | rfl | exact h.elim

theorem encode_ne_nil {bytes : Bytes} {fs : List WireFrame} (h : bytes ∈ fs.map WireFrame.encode) :
    bytes ≠ [] := by
  obtain ⟨f, -, rfl⟩ := List.mem_map.mp h
  apply List.ne_nil_of_length_pos
  have := f.two_le_encode
  omega

/-! ## Bytes without their classes -/

theorem untag_bytesOf (items : List (Common.Class × WireFrame)) :
    (bytesOf WireFrame.encode items).map Prod.snd = stream (items.map Prod.snd) := by
  induction items with
  | nil => rfl
  | cons item items ih =>
      have hcons : bytesOf WireFrame.encode (item :: items) =
          Common.tagged (item.1, item.2.encode) ++ bytesOf WireFrame.encode items := rfl
      rw [hcons, List.map_append, ih, List.map_cons, Wire.Reader.stream_cons]
      simp [Common.tagged]

theorem length_bytesOf (items : List (Common.Class × WireFrame)) :
    (bytesOf WireFrame.encode items).length = (stream (items.map Prod.snd)).length := by
  rw [← untag_bytesOf, List.length_map]

theorem stream_prefix {taken taken' : List (Common.Class × Bytes)} (h : taken <+: taken') :
    Common.stream taken <+: Common.stream taken' := by
  obtain ⟨more, rfl⟩ := h
  rw [Common.stream_append]
  exact List.prefix_append _ _

/-! ## What the other end has parsed -/

/-- The reader of `other` has handled the frames `items` of the end `e`. -/
structure Carried (e other : End) (items : List (Common.Class × WireFrame)) : Prop where
  whole : e.writer.Whole
  data : ∀ cls, e.writer.data cls = (e.frames cls).map WireFrame.encode
  fits : ∀ cls, ∀ f ∈ e.frames cls, f.Fits ∧ OfClass cls f
  merged : Merged e.frames items
  taken : bytesOf WireFrame.encode items <+: Common.stream e.writer.channel.taken
  got : other.got <+: e.sent
  passed : Passed {} other.reader (items.map Prod.snd)
  atRest : ∀ f : WireFrame, f.Fits → f.plain = true → ¬ f.encode <+: other.reader.unread

variable {e e' other other' : End} {items : List (Common.Class × WireFrame)}

theorem Carried.start : Carried {} {} [] where
  whole := Usage.Whole.start
  data cls := by cases cls <;> rfl
  fits cls f hf := by cases cls <;> cases hf
  merged cls := List.nil_prefix
  taken := List.nil_prefix
  got := List.nil_prefix
  passed := ⟨Nat.le_refl _, rfl, rfl, rfl⟩
  atRest f _ _ hprefix := by
    have htwo := f.two_le_encode
    have hlen : f.encode.length ≤ 0 := hprefix.length_le
    omega

/-- It depends on the writer of one end and on the reader of the other. -/
theorem Carried.congr (h : Carried e other items) (hwriter : e'.writer = e.writer)
    (hframes : e'.frames = e.frames) (hreader : other'.reader = other.reader) :
    Carried e' other' items where
  whole := hwriter ▸ h.whole
  data := by
    rw [hwriter, hframes]
    exact h.data
  fits := hframes ▸ h.fits
  merged := hframes ▸ h.merged
  taken := hwriter ▸ h.taken
  got := by
    rw [End.got, End.sent, hwriter, hreader]
    exact h.got
  passed := hreader ▸ h.passed
  atRest := hreader ▸ h.atRest

/-- The writer after a clean call has the new frames. -/
theorem Carried.call (h : Carried e other items) {sock : Socket} (hsock : sock.NoErrors) {o : Op}
    (hclean : o.Clean sock e.writer.channel) {u : Usage} (hstep : e.writer.step sock o = some u)
    {new : Common.Class → List WireFrame} (hnew : ∀ cls, ∀ f ∈ new cls, f.Fits ∧ OfClass cls f)
    (hnormal : o.normalData = (new .normal).map WireFrame.encode)
    (hpriority : o.priorityData = (new .priority).map WireFrame.encode)
    (hwriter : e'.writer = u) (hframes : ∀ cls, e'.frames cls = e.frames cls ++ new cls)
    (hreader : other'.reader = other.reader) : Carried e' other' items := by
  have hempty : o.NonEmpty := by
    cases o with
    | write frame =>
        have hmem : frame ∈ (new .normal).map WireFrame.encode := hnormal ▸ List.mem_singleton_self _
        exact encode_ne_nil hmem
    | writePriority frame =>
        have hmem : frame ∈ (new .priority).map WireFrame.encode :=
          hpriority ▸ List.mem_singleton_self _
        exact encode_ne_nil hmem
    | flush => trivial
  obtain ⟨u', hstep', hwhole⟩ := h.whole.step hsock hempty hclean
  obtain rfl : u = u' := Option.some.inj (hstep.symm.trans hstep')
  obtain ⟨hwritten, hqueued⟩ := h.whole.data_step hsock hclean hstep
  have htaken := stream_prefix (Usage.taken_step hstep)
  refine ⟨hwriter ▸ hwhole, fun cls => ?_, fun cls f hf => ?_, fun cls => ?_, ?_, ?_,
    hreader ▸ h.passed, hreader ▸ h.atRest⟩
  · rw [hwriter, hframes, List.map_append, ← h.data]
    cases cls with
    | normal => rw [← hnormal]; exact hwritten
    | priority => rw [← hpriority]; exact hqueued
  · rw [hframes] at hf
    rcases List.mem_append.mp hf with hf | hf
    · exact h.fits cls f hf
    · exact hnew cls f hf
  · rw [hframes]
    exact (h.merged cls).trans (List.prefix_append _ _)
  · rw [hwriter]
    exact h.taken.trans htaken
  · rw [End.got, hreader, End.sent, hwriter]
    exact h.got.trans (htaken.map Prod.snd)

/-- One new frame. -/
def only (cls : Common.Class) (f : WireFrame) (cls' : Common.Class) : List WireFrame :=
  if cls' = cls then [f] else []

theorem fits_only {cls : Common.Class} {f : WireFrame} (hf : f.Fits) (hcls : OfClass cls f)
    (cls' : Common.Class) (g : WireFrame) (hg : g ∈ only cls f cls') :
    g.Fits ∧ OfClass cls' g := by
  rw [only] at hg
  split at hg
  · rename_i heq
    rw [List.mem_singleton.mp hg, heq]
    exact ⟨hf, hcls⟩
  · cases hg

theorem Carried.write (h : Carried e other items) {sock : Socket} (hsock : sock.NoErrors)
    {f : WireFrame} (hf : f.Fits) (hcls : OfClass .normal f)
    (hclean : Op.Clean sock e.writer.channel (.write f.encode)) {u : Usage}
    (hstep : e.writer.step sock (.write f.encode) = some u) (hwriter : e'.writer = u)
    (hnormal : e'.normal = e.normal ++ [f]) (hpriority : e'.priority = e.priority) :
    Carried e' other items := by
  refine h.call hsock hclean hstep (fits_only hf hcls) rfl rfl hwriter ?_ rfl
  intro cls
  cases cls with
  | normal => exact hnormal
  | priority => exact hpriority.trans (List.append_nil _).symm

theorem Carried.writePriority (h : Carried e other items) {sock : Socket} (hsock : sock.NoErrors)
    {f : WireFrame} (hf : f.Fits) (hcls : OfClass .priority f) {u : Usage}
    (hstep : e.writer.step sock (.writePriority f.encode) = some u) (hwriter : e'.writer = u)
    (hnormal : e'.normal = e.normal) (hpriority : e'.priority = e.priority ++ [f]) :
    Carried e' other items := by
  have hclean : Op.Clean sock e.writer.channel (.writePriority f.encode) := trivial
  refine h.call hsock hclean hstep (fits_only hf hcls) rfl rfl hwriter ?_ rfl
  intro cls
  cases cls with
  | normal => exact hnormal.trans (List.append_nil _).symm
  | priority => exact hpriority

theorem Carried.flush (h : Carried e other items) {sock : Socket} (hsock : sock.NoErrors)
    (hclean : Op.Clean sock e.writer.channel .flush) {u : Usage}
    (hstep : e.writer.step sock .flush = some u) (hwriter : e'.writer = u)
    (hframes : e'.frames = e.frames) : Carried e' other items := by
  have hnew : ∀ cls : Common.Class, ∀ f ∈ ([] : List WireFrame), f.Fits ∧ OfClass cls f := by
    rintro cls f ⟨⟩
  refine h.call hsock hclean hstep hnew rfl rfl hwriter ?_ rfl
  intro cls
  rw [hframes]
  exact (List.append_nil _).symm

/-! ### Reads -/

/-- All that the socket took, as frames behind those that were handled. -/
theorem Carried.exists_rest (h : Carried e other items) :
    ∃ rest, Merged e.frames (items ++ rest) ∧
      Common.stream e.writer.channel.taken <+: bytesOf WireFrame.encode (items ++ rest) := by
  obtain ⟨items', hmerged, hprefix⟩ := h.whole.exists_merged h.data
  have hfilled : ∀ cls, ∀ f ∈ e.frames cls, WireFrame.encode f ≠ [] :=
    fun _ _ hf => encode_ne_nil (List.mem_map_of_mem hf)
  obtain ⟨rest, rfl⟩ := Common.merged_prefix items hfilled h.merged hmerged (h.taken.trans hprefix)
  exact ⟨rest, hmerged, hprefix⟩

theorem Carried.fits_rest (h : Carried e other items) {rest : List (Common.Class × WireFrame)}
    (hmerged : Merged e.frames (items ++ rest)) :
    ∀ f ∈ rest.map Prod.snd, f.Fits ∧ f.plain = true := by
  intro f hf
  obtain ⟨item, hitem, rfl⟩ := List.mem_map.mp hf
  have hmem := hmerged.mem (List.mem_append_right _ hitem)
  obtain ⟨hfits, hcls⟩ := h.fits _ _ hmem
  exact ⟨hfits, hcls.plain⟩

/-- A read succeeds, and the frames that it completes are the next ones. -/
theorem Carried.receive (h : Carried e other items) {chunk : Bytes}
    (hchunk : other.got ++ chunk <+: e.sent) (side : Role) :
    ∃ r new, other.reader.receive side chunk = some r ∧
      Passed other.reader r (new.map Prod.snd) ∧
      ∀ other' : End, other'.reader = r → Carried e other' (items ++ new) := by
  obtain ⟨rest, hmerged, hprefix⟩ := h.exists_rest
  have hfits := h.fits_rest hmerged
  have hconsumed : other.reader.consumed = stream (items.map Prod.snd) := by
    rw [h.passed.consumed]
    rfl
  have hsent : e.sent <+: stream (items.map Prod.snd) ++ stream (rest.map Prod.snd) := by
    have hmap := hprefix.map Prod.snd
    rwa [untag_bytesOf, List.map_append, Wire.Reader.stream_append] at hmap
  have hbuf : other.reader.unread ++ chunk <+: stream (rest.map Prod.snd) := by
    have hall := hchunk.trans hsent
    rw [End.got, hconsumed, List.append_assoc] at hall
    exact (List.prefix_append_right_inj _).mp hall
  obtain ⟨r, gs, hs, hrest, hreceive, hpassed, hsettled, hbytes⟩ :=
    @Wire.Reader.receive_plain _ side _ _ h.passed.inBuffer hfits hbuf
  have hgs : (rest.take gs.length).map Prod.snd = gs := by
    rw [List.map_take, hrest, List.take_left]
  refine ⟨r, rest.take gs.length, hreceive, hgs.symm ▸ hpassed, ?_⟩
  rintro other' rfl
  have hgot : other'.got = other.got ++ chunk := by
    rw [End.got, hpassed.consumed, List.append_assoc, ← hbytes, ← List.append_assoc]
    rfl
  have hall := h.passed.trans hpassed
  refine ⟨h.whole, h.data, h.fits, ?_, ?_, hgot ▸ hchunk, ?_, ?_⟩
  · have hle : items ++ rest.take gs.length <+: items ++ rest :=
      (List.prefix_append_right_inj _).mpr (List.take_prefix _ _)
    obtain ⟨more, hmore⟩ := hle
    exact (hmore ▸ hmerged).of_append
  · have hlonger : bytesOf WireFrame.encode (items ++ rest.take gs.length) <+:
        bytesOf WireFrame.encode (items ++ rest) := by
      rw [Common.bytesOf_append, Common.bytesOf_append]
      refine (List.prefix_append_right_inj _).mpr ?_
      conv_rhs => rw [← List.take_append_drop gs.length rest, Common.bytesOf_append]
      exact List.prefix_append _ _
    refine List.prefix_of_prefix_length_le hlonger hprefix ?_
    rw [length_bytesOf, List.map_append, hgs]
    have hread : other'.reader.consumed = stream (items.map Prod.snd ++ gs) := by
      rw [hall.consumed]
      rfl
    have hle := (hgot ▸ hchunk : other'.got <+: e.sent).length_le
    rw [End.got, hread, List.length_append, End.sent, List.length_map] at hle
    omega
  · rw [List.map_append, hgs]
    exact hall
  · intro f hf hplain
    refine hsettled.not_complete (fun g hg => ?_) hf hplain
    exact (hfits g (hrest ▸ List.mem_append_right _ hg)).1

/-- When the queues are empty and all bytes are read, all frames were handled. -/
theorem Carried.drained (h : Carried e other items) (hnormal : e.writer.channel.buf.chunks = [])
    (hpriority : e.writer.channel.buf.priorityChunks = []) (hgot : other.got = e.sent)
    (cls : Common.Class) : itemsOf items cls = e.frames cls := by
  obtain ⟨items', hmerged, hlen, hstream⟩ := h.whole.exists_merged_of_empty h.data hnormal hpriority
  have hfilled : ∀ cls, ∀ f ∈ e.frames cls, WireFrame.encode f ≠ [] :=
    fun _ _ hf => encode_ne_nil (List.mem_map_of_mem hf)
  obtain ⟨rest, rfl⟩ :=
    Common.merged_prefix items hfilled h.merged hmerged (hstream ▸ h.taken)
  have hunread : other.reader.unread = stream (rest.map Prod.snd) := by
    have hsent : e.sent = stream (items.map Prod.snd) ++ stream (rest.map Prod.snd) := by
      rw [End.sent, hstream, untag_bytesOf, List.map_append, Wire.Reader.stream_append]
    rw [← hgot, End.got, h.passed.consumed] at hsent
    exact List.append_cancel_left hsent
  cases rest with
  | nil =>
      rw [List.append_nil] at hmerged hlen
      exact (hmerged cls).eq_of_length (hlen cls)
  | cons item rest =>
      obtain ⟨hfits, hplain⟩ := h.fits_rest hmerged item.2 (by simp)
      refine absurd ?_ (h.atRest item.2 hfits hplain)
      rw [hunread, List.map_cons, Wire.Reader.stream_cons]
      exact List.prefix_append _ _

end PipelineTunnel.Conn
