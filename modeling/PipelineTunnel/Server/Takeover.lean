import PipelineTunnel.Server.Registry
import PipelineTunnel.Server.Slots

/-!
# Who can take over the primary connection of a session

A session that is connected gets another primary connection in two ways: `handle_reconnect`
of a second session, which has been sent the answer to its challenge, and nine bytes that
name the session and output 0, which nobody has to authenticate.
-/

namespace PipelineTunnel.Registry

open Protocol Lifecycle StepSystem

def Entry.primary (e : Entry) : Option Nat := e.session.core.primary

/-- The session made for this connection was sent the answer to its challenge. -/
def Server.Presents (sv : Server) (x : Nat) : Prop :=
  ∃ e ∈ sv.sessions, e.origin = x ∧ Presented e.world e.fed

/-- A live session whose primary connection was replaced got one that presented the hash. -/
def Guarded (sv sv' : Server) : Prop :=
  ∀ (i : Nat) (e e' : Entry), sv.sessions[i]? = some e → sv'.sessions[i]? = some e' →
    e.alive → ∀ x y, e.primary = some y → e'.primary = some x → x ≠ y → sv'.Presents x

/-- The event completes nine bytes that name a live session, with an open primary connection,
and output 0. -/
def Seizes (sv : Server) : Event → Prop
  | .handshakeRead i data _ =>
      ∃ ph, sv.pendingHandshakes[i]? = some ph ∧ (ph.buf ++ data).length = 9 ∧
        outputIdx (ph.buf ++ data) = 0 ∧
        ∃ j e, sv.lock (readU64 (ph.buf ++ data)) = some (j, e) ∧ e.primary.isSome
  | _ => False

/-! ## What every session keeps -/

/-- As long as a session can still give its client away, the client is the connection it was
made for. -/
structure Entry.Sound (e : Entry) : Prop where
  gate : Gate e.world e.fed e.session
  orderly : e.session.Orderly
  client : ∀ z, e.session.clientFd = some z →
    z = e.origin ∨ Settled e.session.core.state ∧ Presented e.world e.fed

structure Entry.Owned (P : Nat → Prop) (e : Entry) : Prop where
  origin : P e.origin
  session : e.session.Owned P

theorem Entry.Owned.mono {P Q : Nat → Prop} {e : Entry} (h : e.Owned P) (hle : ∀ x, P x → Q x) :
    e.Owned Q where
  origin := hle _ h.origin
  session :=
    ⟨⟨fun dc hdc x hx => hle x (h.session.core.slots dc hdc x hx),
      fun q hq => hle _ (h.session.core.waiting q hq)⟩, fun x hx => hle x (h.session.client x hx)⟩

section Entry

variable {e : Entry} {cfg : Config}

/-- What a session does without the server. -/
theorem drift_step {w : World} {s s' : Session} (h : s.Orderly) {ev : Lifecycle.Event}
    (hint : isInternal ev) (hstep : s.step w ev = some s') : Drift s s' := by
  cases ev with
  | onData reconnects data => simp [isInternal] at hint
  | addDataConnection outputIdx fd => simp [isInternal] at hint
  | reconnect fd => simp [isInternal] at hint
  | dataRead idx res => exact drift_dataRead h hstep
  | onDisconnect =>
      obtain rfl := Option.some.inj hstep
      exact (drift_refl h).onDisconnect
  | connectDone pending ok =>
      simp only [Session.step] at hstep
      split_ifs at hstep
      obtain rfl := Option.some.inj hstep
      exact drift_of_frames h (frames_connectDone s.core pending ok)
  | connectTimeout reqId =>
      obtain rfl := Option.some.inj hstep
      exact drift_of_frames h (frames_connectTimeout s.core reqId)
  | sendDisconnectNow connId sent =>
      obtain rfl := Option.some.inj hstep
      exact drift_of_frames h (frames_sendDisconnectNow s.core connId sent)
  | closePendingTargets =>
      obtain rfl := Option.some.inj hstep
      have hclose := frames_closeTargets s.core.pendingDisconnectTargets s.core
      have hframes : Frames s.core
          { s.core.pendingDisconnectTargets.foldl closeTarget s.core with
            pendingDisconnectTargets := [] } :=
        ⟨⟨hclose.state, hclose.connections, hclose.reached⟩, hclose.waiting⟩
      exact drift_of_frames h hframes
  | wireWriteFailed idx =>
      obtain rfl := Option.some.inj hstep
      exact drift_closeSlot h idx
  | targetError connId =>
      obtain rfl := Option.some.inj hstep
      exact drift_of_frames h (frames_closeTarget s.core connId)
  | checkHeartbeat timeout =>
      obtain rfl := Option.some.inj hstep
      exact drift_checkHeartbeat h timeout

theorem fed_of_internal {ev : Lifecycle.Event} (hint : isInternal ev) : ev.fed = [] := by
  cases ev with
  | onData reconnects data => simp [isInternal] at hint
  | _ => rfl

theorem Entry.Sound.internal (h : e.Sound) {ev : Lifecycle.Event} (hint : isInternal ev)
    {s : Session} (hstep : e.session.step e.world ev = some s) :
    ({ e with session := s } : Entry).Sound where
  gate := by
    have hgate := gate_step h.gate hstep
    rwa [fed_of_internal hint, List.append_nil] at hgate
  orderly := (drift_step h.orderly hint hstep).orderly
  client z hz := by
    have hdrift := drift_step h.orderly hint hstep
    rcases h.client z (hdrift.client ▸ hz) with horigin | ⟨hst, hpres⟩
    · exact Or.inl horigin
    · exact Or.inr ⟨hdrift.settled hst, hpres⟩

/-- The entry of a session that got a data connection. -/
def Entry.attach (e : Entry) (outputIdx : UInt8) (fd : Nat) : Entry :=
  { e with
    session := e.session.setCore (addDataConnection e.world e.session.core outputIdx fd) }

theorem Entry.Sound.attach (h : e.Sound) (outputIdx : UInt8) (fd : Nat) :
    (e.attach outputIdx fd).Sound where
  gate := by
    have hstep : e.session.step e.world (.addDataConnection outputIdx fd) =
      some (e.session.setCore (addDataConnection e.world e.session.core outputIdx fd)) := rfl
    have hgate := gate_step h.gate hstep
    rw [show (Lifecycle.Event.addDataConnection outputIdx fd).fed = [] from rfl,
      List.append_nil] at hgate
    exact hgate
  orderly := addDataConnection_orderly e.world h.orderly outputIdx fd
  client z hz := by
    change _ ∨ Settled (addDataConnection e.world e.session.core outputIdx fd).state ∧ _
    rw [addDataConnection_state]
    exact h.client z hz

theorem sound_newEntry (fd : Nat) (draw : Draw) : (newEntry cfg fd draw).Sound where
  gate := Or.inr ((Locked.init fd).sendPacket _)
  orderly := ⟨fun _ => rfl, fun h => absurd h Bool.false_ne_true⟩
  client _ hz := Or.inl (Option.some.inj hz).symm

/-- A session that takes over a connection was paused, so it has been authenticated. -/
theorem Entry.Sound.reconnect (h : e.Sound) (fd : Nat) :
    ({ e with session := reconnect e.world e.session fd } : Entry).Sound := by
  have hgate : Gate e.world e.fed (Lifecycle.reconnect e.world e.session fd) := by
    have hstep : e.session.step e.world (.reconnect fd) =
      some (Lifecycle.reconnect e.world e.session fd) := rfl
    simpa [Lifecycle.Event.fed] using gate_step h.gate hstep
  by_cases hp : e.session.paused = true
  · have hst : Settled (Lifecycle.reconnect e.world e.session fd).core.state := by
      rw [(frames_reconnect e.world hp fd).state]
      exact h.orderly.paused hp
    have hpres : Presented e.world e.fed := by
      rcases h.gate with hpres | hlocked
      · exact hpres
      · exact absurd (hlocked.unpaused.symm.trans hp) Bool.false_ne_true
    exact ⟨hgate, ⟨fun hlate => absurd hst.late hlate, fun _ => hst⟩, fun z _ =>
      Or.inr ⟨hst, hpres⟩⟩
  · rw [reconnect_of_not_paused e.world hp]
    exact h

/-- The entry of a session behind `on_data`. -/
def Entry.fedBy (e : Entry) (reconnects : UInt64 → Bool) (fd : Nat) (data : Bytes) : Entry :=
  { e with
    session := onData e.world reconnects e.session data
    fed := if fd = e.origin then e.fed ++ data else e.fed }

section Fed

variable (reconnects : UInt64 → Bool) {fd : Nat} (data : Bytes)

theorem Entry.Sound.walk (h : e.Sound) (fd : Nat) :
    Walk e.session (e.fedBy reconnects fd data).session :=
  walk_onData h.orderly.early data

theorem Entry.Sound.fedBy (h : e.Sound) (hfd : e.session.clientFd = some fd) :
    (e.fedBy reconnects fd data).Sound := by
  have hwalk := h.walk reconnects data fd
  have horderly : (e.fedBy reconnects fd data).session.Orderly :=
    ⟨hwalk.early, fun hp => (hwalk.settled (h.orderly.paused (hwalk.paused ▸ hp))).1⟩
  by_cases horigin : fd = e.origin
  · have hgate : Gate e.world (e.fed ++ data) (onData e.world reconnects e.session data) := by
      have hstep : e.session.step e.world (.onData reconnects data) =
        some (onData e.world reconnects e.session data) := rfl
      exact gate_step h.gate hstep
    refine ⟨?_, horderly, fun z hz => ?_⟩
    · simpa [Entry.fedBy, horigin] using hgate
    · rcases hwalk.client with ⟨hsame, -⟩ | ⟨hnone, -⟩
      · have hz' : some fd = some z := (hsame.trans hfd).symm.trans hz
        exact Or.inl ((Option.some.inj hz').symm.trans horigin)
      · exact absurd (hnone.symm.trans hz) (by simp)
  · -- Bytes of another connection reach a settled session only.
    obtain ⟨hst, hpres⟩ := (h.client fd hfd).resolve_left horigin
    have hpres' : Presented e.world (e.fedBy reconnects fd data).fed := by
      simpa [Entry.fedBy, horigin] using hpres
    exact ⟨Or.inl hpres', horderly, fun z _ => Or.inr ⟨(hwalk.settled hst).1, hpres'⟩⟩

theorem Entry.Owned.fedBy {P : Nat → Prop} (h : e.Owned P) (hsound : e.Sound) :
    (e.fedBy reconnects fd data).Owned P :=
  ⟨h.origin, (hsound.walk reconnects data fd).owned P h.session⟩

/-- Who gave its client away was made for it and was sent the answer. -/
theorem Entry.Sound.presented_of_none (h : e.Sound) (hfd : e.session.clientFd = some fd)
    (hnone : (e.fedBy reconnects fd data).session.clientFd = none) :
    e.origin = fd ∧ Presented e.world (e.fedBy reconnects fd data).fed := by
  have hwalk := h.walk reconnects data fd
  have hhanded : (e.fedBy reconnects fd data).session.handedTo.isSome := by
    rcases hwalk.client with ⟨hsame, -⟩ | ⟨-, hhanded⟩
    · exact absurd ((hsame.trans hfd).symm.trans hnone) (by simp)
    · exact hhanded
  have horigin : fd = e.origin := by
    rcases h.client fd hfd with horigin | ⟨hst, -⟩
    · exact horigin
    · have hsame := (hwalk.settled hst).2
      exact absurd ((hsame.trans hfd).symm.trans hnone) (by simp)
  exact ⟨horigin.symm, (h.fedBy reconnects data hfd).gate.presented (Or.inr (Or.inr hhanded))⟩

end Fed

end Entry

/-! ## The server -/

/-- The connections that no handshake is waiting for. -/
def Server.Taken (sv : Server) (x : Nat) : Prop :=
  x < sv.next ∧ ∀ p ∈ sv.pendingHandshakes, p.fd ≠ x

structure Server.Consistent (sv : Server) : Prop where
  sound : ∀ e ∈ sv.sessions, e.Sound
  owned : ∀ e ∈ sv.sessions, e.Owned sv.Taken
  below : ∀ p ∈ sv.pendingHandshakes, p.fd < sv.next
  distinct : (sv.pendingHandshakes.map PendingHandshake.fd).Nodup

section Server

variable {cfg : Config} {sv sv' : Server} {i : Nat} {e e' : Entry}

theorem Server.Consistent.init : ({} : Server).Consistent :=
  ⟨by simp, by simp, by simp, by simp⟩

theorem Server.Consistent.put (h : sv.Consistent) (i : Nat) (hsound : e.Sound)
    (howned : e.Owned sv.Taken) : (sv.put i e).Consistent := by
  refine ⟨fun e' he' => ?_, fun e' he' => ?_, h.below, h.distinct⟩
  · rcases List.mem_or_eq_of_mem_set he' with he' | rfl
    · exact h.sound e' he'
    · exact hsound
  · rcases List.mem_or_eq_of_mem_set he' with he' | rfl
    · exact h.owned e' he'
    · exact howned

theorem lock_eq_some {sid : UInt64} (h : sv.lock sid = some (i, e)) :
    sv.sessions[i]? = some e ∧ e.alive := by
  unfold Server.lock at h
  split at h
  · contradiction
  · split at h
    · contradiction
    · split_ifs at h with halive
      obtain ⟨rfl, rfl⟩ := Prod.mk.inj (Option.some.inj h)
      exact ⟨‹_›, halive⟩

theorem named_eq_some {buf : Bytes} (h : sv.named buf = some (i, e)) :
    sv.sessions[i]? = some e ∧ e.alive := by
  unfold Server.named at h
  split_ifs at h
  exact lock_eq_some h

theorem put_sessions (he : sv.sessions[i]? = some e) (e' : Entry) (j : Nat) :
    (sv.put i e').sessions[j]? = if i = j then some e' else sv.sessions[j]? := by
  have hlt := (List.getElem?_eq_some_iff.mp he).1
  simp [Server.put, List.getElem?_set, hlt]

/-- The password of a connection stays presented. -/
theorem Server.Presents.put {x : Nat} (h : sv.Presents x) (he : sv.sessions[i]? = some e)
    (horigin : e'.origin = e.origin) (hpres : Presented e.world e.fed → Presented e'.world e'.fed) :
    (sv.put i e').Presents x := by
  obtain ⟨e₀, he₀, hx, hpres₀⟩ := h
  obtain ⟨j, hj⟩ := List.mem_iff_getElem?.mp he₀
  have hput := put_sessions he e' j
  by_cases hij : i = j
  · subst hij
    obtain rfl := Option.some.inj (he.symm.trans hj)
    rw [if_pos rfl] at hput
    exact ⟨e', List.mem_of_getElem? hput, horigin.trans hx, hpres hpres₀⟩
  · rw [if_neg hij] at hput
    exact ⟨e₀, List.mem_of_getElem? (hput.trans hj), hx, hpres₀⟩

/-- A session changed that keeps or loses its primary connection. -/
theorem guarded_put (he : sv.sessions[i]? = some e)
    (hsteady : ∀ x y, e.primary = some y → e'.primary = some x → x = y) :
    Guarded sv (sv.put i e') := by
  intro j e₀ e₁ he₀ he₁ _ x y hy hx hne
  rw [put_sessions he] at he₁
  split_ifs at he₁ with hij
  · subst hij
    obtain rfl := Option.some.inj he₁
    obtain rfl := Option.some.inj (he.symm.trans he₀)
    exact absurd (hsteady x y hy hx) hne
  · obtain rfl := Option.some.inj (he₀.symm.trans he₁)
    exact absurd (Option.some.inj (hx.symm.trans hy)) hne

theorem guarded_of_sessions (hsub : ∀ (j : Nat) (e : Entry), sv.sessions[j]? = some e →
    sv'.sessions[j]? = some e) {sv'' : Server} (h : Guarded sv' sv'') : Guarded sv sv'' := by
  intro j e e' he he'
  exact h j e e' (hsub j e he) he'

theorem guarded_refl (sv : Server) : Guarded sv sv := by
  intro j e e' he he' _ x y hy hx hne
  obtain rfl := Option.some.inj (he.symm.trans he')
  exact absurd (Option.some.inj (hx.symm.trans hy)) hne

/-! ## A client that is given away -/

variable {fd : Nat} {sid : UInt64} {data : Bytes}

theorem consistent_handOver (h : sv.Consistent) (hfd : sv.Taken fd) :
    (sv.handOver fd sid).Consistent := by
  unfold Server.handOver
  split
  · exact h
  · rename_i j old hlock
    have hold := List.mem_of_getElem? (lock_eq_some hlock).1
    have howned := h.owned old hold
    exact h.put j ((h.sound old hold).reconnect fd)
      ⟨howned.origin, reconnect_owned old.world howned.session hfd⟩

theorem handOver_primary {k : Nat} (he' : (sv.handOver fd sid).sessions[k]? = some e') :
    ∃ e, sv.sessions[k]? = some e ∧ ∀ x, e'.primary = some x → x = fd ∨ e.primary = some x := by
  unfold Server.handOver at he'
  split at he'
  · exact ⟨e', he', fun _ => Or.inr⟩
  · rename_i j old hlock
    have hold := (lock_eq_some hlock).1
    rw [put_sessions hold] at he'
    split_ifs at he' with hjk
    · obtain rfl := Option.some.inj he'
      exact ⟨old, hjk ▸ hold, fun x hx => reconnect_primary old.world old.session fd hx⟩
    · exact ⟨e', he', fun _ => Or.inr⟩

theorem Server.Presents.handOver {x : Nat} (h : sv.Presents x) :
    (sv.handOver fd sid).Presents x := by
  unfold Server.handOver
  split
  · exact h
  · rename_i j old hlock
    exact h.put (lock_eq_some hlock).1 rfl id

theorem onData_cases (sv : Server) (i : Nat) (e : Entry) (fd : Nat) (data : Bytes) :
    sv.onData i e fd data = sv.put i (e.fedBy sv.reconnects fd data) ∨
      (e.fedBy sv.reconnects fd data).session.clientFd = none ∧ ∃ sid,
        sv.onData i e fd data = (sv.put i (e.fedBy sv.reconnects fd data)).handOver fd sid := by
  cases hclient : (onData e.world sv.reconnects e.session data).clientFd with
  | some z =>
      left
      simp only [Server.onData, hclient]
      rfl
  | none =>
      cases hto : (onData e.world sv.reconnects e.session data).handedTo with
      | none =>
          left
          simp only [Server.onData, hclient, hto]
          rfl
      | some sid =>
          refine Or.inr ⟨hclient, sid, ?_⟩
          simp only [Server.onData, hclient, hto]
          rfl

theorem consistent_onData (h : sv.Consistent) (he : sv.sessions[i]? = some e)
    (hfd : e.session.clientFd = some fd) : (sv.onData i e fd data).Consistent := by
  have hmem := List.mem_of_getElem? he
  have hsound := h.sound e hmem
  have howned := h.owned e hmem
  have hput := h.put i (hsound.fedBy sv.reconnects data hfd) (howned.fedBy sv.reconnects data hsound)
  rcases onData_cases sv i e fd data with heq | ⟨-, sid, heq⟩
  · rw [heq]
    exact hput
  · rw [heq]
    exact consistent_handOver hput (howned.session.client fd hfd)

theorem guarded_onData (h : sv.Consistent) (he : sv.sessions[i]? = some e)
    (hfd : e.session.clientFd = some fd) : Guarded sv (sv.onData i e fd data) := by
  have hsound := h.sound e (List.mem_of_getElem? he)
  have hput : Guarded sv (sv.put i (e.fedBy sv.reconnects fd data)) := by
    refine guarded_put he fun x y hy hx => ?_
    have hkept := (hsound.walk sv.reconnects data fd).primary y hy
    exact Option.some.inj (hx.symm.trans hkept)
  rcases onData_cases sv i e fd data with heq | ⟨hnone, sid, heq⟩
  · rw [heq]
    exact hput
  · rw [heq]
    intro k e₀ e' he₀ he' halive x y hy hx hne
    obtain ⟨e₁, he₁, hprimary⟩ := handOver_primary he'
    rcases hprimary x hx with rfl | hx₁
    · obtain ⟨horigin, hpres⟩ := hsound.presented_of_none sv.reconnects data hfd hnone
      have hmem := put_sessions he (e.fedBy sv.reconnects x data) i
      rw [if_pos rfl] at hmem
      exact Server.Presents.handOver ⟨_, List.mem_of_getElem? hmem, horigin, hpres⟩
    · exact (hput k e₀ e₁ he₀ he₁ halive x y hy hx₁ hne).handOver

/-! ## A handshake that is complete -/

theorem consistent_register (h : sv.Consistent) (hsound : e.Sound) (howned : e.Owned sv.Taken) :
    (sv.register sid e).Consistent := by
  refine ⟨fun e' he' => ?_, fun e' he' => ?_, h.below, h.distinct⟩
  · rcases List.mem_append.mp he' with he' | he'
    · exact h.sound e' he'
    · exact List.mem_singleton.mp he' ▸ hsound
  · rcases List.mem_append.mp he' with he' | he'
    · exact h.owned e' he'
    · exact List.mem_singleton.mp he' ▸ howned

theorem owned_newEntry {P : Nat → Prop} (hfd : P fd) (draw : Draw) :
    (newEntry cfg fd draw).Owned P :=
  ⟨hfd, ⟨by simp [newEntry, Session.init, Session.sendPacket], by
      simp [newEntry, Session.init, Session.sendPacket]⟩, fun _ hx => Option.some.inj hx ▸ hfd⟩

theorem register_sessions (sv : Server) (sid : UInt64) (e : Entry) :
    (sv.register sid e).sessions[sv.sessions.length]? = some e := by
  simp [Server.register]

theorem consistent_finishHandshake (h : sv.Consistent) (hfd : sv.Taken fd) (buf : Bytes)
    (draw : Draw) : (finishHandshake cfg sv fd buf draw).Consistent := by
  unfold finishHandshake
  split
  · rename_i j e hnamed
    have hmem := List.mem_of_getElem? (named_eq_some hnamed).1
    have howned := h.owned e hmem
    exact h.put j ((h.sound e hmem).attach _ _)
      ⟨howned.origin, addDataConnection_owned e.world howned.session.core _ hfd,
        howned.session.client⟩
  · have hreg : (sv.register draw.sessionId (newEntry cfg fd draw)).Consistent :=
      consistent_register h (sound_newEntry fd draw) (owned_newEntry hfd draw)
    dsimp only
    split_ifs
    · exact hreg
    · exact consistent_onData hreg (register_sessions sv _ _) rfl

theorem guarded_finishHandshake (h : sv.Consistent) (hfd : sv.Taken fd) {buf : Bytes}
    (hsafe : ∀ j e, sv.named buf = some (j, e) → e.primary.isSome → outputIdx buf ≠ 0)
    (draw : Draw) : Guarded sv (finishHandshake cfg sv fd buf draw) := by
  unfold finishHandshake
  split
  · rename_i j e hnamed
    refine guarded_put (named_eq_some hnamed).1 fun x y hy hx => ?_
    have hidx : (outputIdx buf).toNat ≠ 0 := by
      intro hzero
      exact hsafe j e hnamed (by simp [hy]) (UInt8.toNat_inj.mp hzero)
    have hkept := addDataConnection_primary e.world hy (outputIdx buf) fd
    rw [if_neg hidx] at hkept
    exact Option.some.inj (hx.symm.trans hkept)
  · have hsub : ∀ (j : Nat) (e : Entry), sv.sessions[j]? = some e →
        (sv.register draw.sessionId (newEntry cfg fd draw)).sessions[j]? = some e := by
      intro j e he
      exact List.getElem?_append_left (List.getElem?_eq_some_iff.mp he).1 ▸ he
    have hreg : (sv.register draw.sessionId (newEntry cfg fd draw)).Consistent :=
      consistent_register h (sound_newEntry fd draw) (owned_newEntry hfd draw)
    dsimp only
    split_ifs
    · exact guarded_of_sessions hsub (guarded_refl _)
    · exact guarded_of_sessions hsub (guarded_onData hreg (register_sessions sv _ _) rfl)

/-! ## The steps -/

/-- A pending handshake is over. -/
def Server.dropHandshake (sv : Server) (i : Nat) : Server :=
  { sv with pendingHandshakes := sv.pendingHandshakes.eraseIdx i }

/-- What the steps with a case distinction can do. -/
theorem handshakeRead_cases {draw : Draw}
    (hstep : sv.step cfg (.handshakeRead i data draw) = some sv') :
    ∃ ph, sv.pendingHandshakes[i]? = some ph ∧
      ((ph.buf ++ data).length = 9 ∧
          sv' = finishHandshake cfg (sv.dropHandshake i) ph.fd (ph.buf ++ data) draw ∨
        (ph.buf ++ data).length ≠ 9 ∧ sv' =
          { sv with
            pendingHandshakes := sv.pendingHandshakes.set i { ph with buf := ph.buf ++ data } }) := by
  simp only [Server.step] at hstep
  split at hstep
  · contradiction
  · rename_i ph hph
    split_ifs at hstep with _ hlen
    · exact ⟨ph, hph, Or.inl ⟨hlen, (Option.some.inj hstep).symm⟩⟩
    · exact ⟨ph, hph, Or.inr ⟨hlen, (Option.some.inj hstep).symm⟩⟩

theorem handshakeTimeout_cases {draw : Draw}
    (hstep : sv.step cfg (.handshakeTimeout i draw) = some sv') :
    ∃ ph, sv.pendingHandshakes[i]? = some ph ∧
      sv' = finishHandshake cfg (sv.dropHandshake i) ph.fd [] draw := by
  simp only [Server.step] at hstep
  split at hstep
  · contradiction
  · rename_i ph hph
    split_ifs at hstep
    exact ⟨ph, hph, (Option.some.inj hstep).symm⟩

theorem clientRead_cases (hstep : sv.step cfg (.clientRead i data) = some sv') :
    ∃ e fd, sv.sessions[i]? = some e ∧ e.session.clientFd = some fd ∧
      sv' = sv.onData i e fd data := by
  simp only [Server.step] at hstep
  split at hstep
  · contradiction
  · rename_i e he
    split at hstep
    · rename_i fd _ hfd
      exact ⟨e, fd, he, hfd, (Option.some.inj hstep).symm⟩
    · contradiction

theorem session_cases {ev : Lifecycle.Event}
    (hstep : sv.step cfg (.session i ev) = some sv') :
    ∃ e s, sv.sessions[i]? = some e ∧ isInternal ev ∧ e.session.step e.world ev = some s ∧
      sv' = sv.put i { e with session := s } := by
  simp only [Server.step] at hstep
  split at hstep
  · contradiction
  · rename_i e he
    split_ifs at hstep with hint
    obtain ⟨s, hs, rfl⟩ := Option.map_eq_some_iff.mp hstep
    exact ⟨e, s, he, hint.2, hs, rfl⟩

theorem expire_cases (hstep : sv.step cfg (.expire i) = some sv') :
    ∃ e, sv.sessions[i]? = some e ∧ sv' =
      { sv.put i { e with alive := false } with
        registry := Function.update sv.registry e.world.sessionId none } := by
  simp only [Server.step] at hstep
  split at hstep
  · contradiction
  · rename_i e he
    exact ⟨e, he, (Option.some.inj hstep).symm⟩

theorem Server.Consistent.setPending (h : sv.Consistent) {phs : List PendingHandshake}
    (hsub : (phs.map PendingHandshake.fd).Sublist
      (sv.pendingHandshakes.map PendingHandshake.fd)) :
    ({ sv with pendingHandshakes := phs } : Server).Consistent := by
  have hmem : ∀ p ∈ phs, ∃ p' ∈ sv.pendingHandshakes, p'.fd = p.fd := by
    intro p hp
    exact List.mem_map.mp (hsub.subset (List.mem_map_of_mem hp))
  refine ⟨h.sound, fun e he => (h.owned e he).mono fun x hx => ⟨hx.1, fun p hp => ?_⟩,
    fun p hp => ?_, h.distinct.sublist hsub⟩
  · obtain ⟨p', hp', heq⟩ := hmem p hp
    exact heq ▸ hx.2 p' hp'
  · obtain ⟨p', hp', heq⟩ := hmem p hp
    exact heq ▸ h.below p' hp'

theorem map_fd_set {phs : List PendingHandshake} {ph : PendingHandshake}
    (hph : phs[i]? = some ph) (buf : Bytes) :
    (phs.set i { ph with buf := buf }).map PendingHandshake.fd =
      phs.map PendingHandshake.fd := by
  obtain ⟨hlt, rfl⟩ := List.getElem?_eq_some_iff.mp hph
  have hlen : i < (phs.map PendingHandshake.fd).length := by rwa [List.length_map]
  have hget : phs[i].fd = (phs.map PendingHandshake.fd)[i] := by simp
  rw [List.map_set, hget, List.set_getElem_self]

theorem consistent_dropHandshake (h : sv.Consistent) (i : Nat) :
    (sv.dropHandshake i).Consistent :=
  h.setPending ((List.eraseIdx_sublist _ i).map _)

/-- A handshake that leaves the list is waited for no longer. -/
theorem taken_dropHandshake (h : sv.Consistent) {ph : PendingHandshake}
    (hph : sv.pendingHandshakes[i]? = some ph) : (sv.dropHandshake i).Taken ph.fd := by
  refine ⟨h.below ph (List.mem_of_getElem? hph), fun p hp heq => ?_⟩
  obtain ⟨j, hne, hj⟩ := List.mem_eraseIdx_iff_getElem?.mp hp
  apply hne
  have hlt : j < (sv.pendingHandshakes.map PendingHandshake.fd).length := by
    rw [List.length_map]
    exact (List.getElem?_eq_some_iff.mp hj).1
  refine (List.getElem?_inj hlt h.distinct).mp ?_
  rw [List.getElem?_map, List.getElem?_map, hj, hph, Option.map_some, Option.map_some, heq]

theorem consistent_accept (h : sv.Consistent) :
    ({ sv with
      next := sv.next + 1
      pendingHandshakes := sv.pendingHandshakes ++ [{ fd := sv.next }] } : Server).Consistent := by
  refine ⟨h.sound, fun e he => (h.owned e he).mono fun x hx =>
    ⟨hx.1.trans (Nat.lt_succ_self _), ?_⟩, ?_, ?_⟩
  · intro p hp heq
    rcases List.mem_append.mp hp with hp | hp
    · exact hx.2 p hp heq
    · obtain rfl := List.mem_singleton.mp hp
      exact absurd heq.symm hx.1.ne
  · intro p hp
    rcases List.mem_append.mp hp with hp | hp
    · exact (h.below p hp).trans (Nat.lt_succ_self _)
    · obtain rfl := List.mem_singleton.mp hp
      exact Nat.lt_succ_self _
  · rw [List.map_append, List.nodup_append]
    refine ⟨h.distinct, List.nodup_singleton _, fun x hx y hy heq => ?_⟩
    obtain ⟨p, hp, rfl⟩ := List.mem_map.mp hx
    obtain rfl := List.mem_singleton.mp hy
    exact absurd heq (h.below p hp).ne

theorem consistent_step (h : sv.Consistent) {ev : Event} (hstep : sv.step cfg ev = some sv') :
    sv'.Consistent := by
  cases ev with
  | accept =>
      obtain rfl := Option.some.inj hstep
      exact consistent_accept h
  | handshakeRead i data draw =>
      obtain ⟨ph, hph, ⟨-, rfl⟩ | ⟨-, rfl⟩⟩ := handshakeRead_cases hstep
      · exact consistent_finishHandshake (consistent_dropHandshake h i)
          (taken_dropHandshake h hph) _ draw
      · apply h.setPending
        rw [map_fd_set hph]
  | handshakeClosed i =>
      obtain rfl := Option.some.inj hstep
      exact consistent_dropHandshake h i
  | handshakeTimeout i draw =>
      obtain ⟨ph, hph, rfl⟩ := handshakeTimeout_cases hstep
      exact consistent_finishHandshake (consistent_dropHandshake h i)
        (taken_dropHandshake h hph) _ draw
  | clientRead i data =>
      obtain ⟨e, fd, he, hfd, rfl⟩ := clientRead_cases hstep
      exact consistent_onData h he hfd
  | session i ev =>
      obtain ⟨e, s, he, hint, hs, rfl⟩ := session_cases hstep
      have hmem := List.mem_of_getElem? he
      have hdrift := drift_step (h.sound e hmem).orderly hint hs
      have howned := h.owned e hmem
      exact h.put i ((h.sound e hmem).internal hint hs)
        ⟨howned.origin, hdrift.owned _ howned.session⟩
  | expire i =>
      obtain ⟨e, he, rfl⟩ := expire_cases hstep
      have hmem := List.mem_of_getElem? he
      have hsound := h.sound e hmem
      have howned := h.owned e hmem
      have hput : (sv.put i { e with alive := false }).Consistent :=
        h.put i ⟨hsound.gate, hsound.orderly, hsound.client⟩ ⟨howned.origin, howned.session⟩
      exact ⟨hput.sound, hput.owned, hput.below, hput.distinct⟩

/-- The session that nine bytes name gets their connection. -/
theorem handshakeRead_named {draw : Draw} {ph : PendingHandshake} {j : Nat}
    (hph : sv.pendingHandshakes[i]? = some ph) (hlen : (ph.buf ++ data).length = 9)
    (hlock : sv.lock (readU64 (ph.buf ++ data)) = some (j, e))
    (hstep : sv.step cfg (.handshakeRead i data draw) = some sv') :
    sv' = (sv.dropHandshake i).put j (e.attach (outputIdx (ph.buf ++ data)) ph.fd) := by
  obtain ⟨ph', hph', ⟨-, rfl⟩ | ⟨hlen', -⟩⟩ := handshakeRead_cases hstep
  · obtain rfl := Option.some.inj (hph.symm.trans hph')
    have hnamed : (sv.dropHandshake i).named (ph.buf ++ data) = some (j, e) := by
      rw [Server.named, if_pos hlen]
      exact hlock
    rw [finishHandshake, hnamed]
    rfl
  · obtain rfl := Option.some.inj (hph.symm.trans hph')
    exact absurd hlen hlen'

/-- Nine bytes for output 0 replace the primary connection by one that no session was made
for. -/
theorem not_guarded_of_seizes (h : sv.Consistent) {ev : Event} (hseizes : Seizes sv ev)
    (hstep : sv.step cfg ev = some sv') : ¬ Guarded sv sv' := by
  cases ev with
  | handshakeRead i data draw =>
      obtain ⟨ph, hph, hlen, hzero, j, e, hlock, hopen⟩ := hseizes
      obtain ⟨y, hy⟩ := Option.isSome_iff_exists.mp hopen
      obtain ⟨he, halive⟩ := lock_eq_some hlock
      obtain rfl := handshakeRead_named hph hlen hlock hstep
      have hx : (e.attach (outputIdx (ph.buf ++ data)) ph.fd).primary = some ph.fd := by
        have hidx : (outputIdx (ph.buf ++ data)).toNat = 0 := by simp [hzero]
        have hnew := addDataConnection_primary e.world hy (outputIdx (ph.buf ++ data)) ph.fd
        rwa [if_pos hidx] at hnew
      intro hguarded
      have hmem := List.mem_of_getElem? hph
      have howned := h.owned e (List.mem_of_getElem? he)
      have hne : ph.fd ≠ y := by
        obtain ⟨dc, hdc, hfd⟩ := Option.bind_eq_some_iff.mp hy
        exact (howned.session.core.slots dc (List.mem_of_getElem? hdc) y hfd).2 ph hmem
      have hput : ((sv.dropHandshake i).put j
          (e.attach (outputIdx (ph.buf ++ data)) ph.fd)).sessions[j]? =
            some (e.attach (outputIdx (ph.buf ++ data)) ph.fd) :=
        (put_sessions he _ j).trans (if_pos rfl)
      obtain ⟨e₁, he₁, horigin, -⟩ := hguarded j e _ he hput halive ph.fd y hy hx hne
      have htaken : sv.Taken e₁.origin := by
        rcases List.mem_or_eq_of_mem_set he₁ with he₁ | rfl
        · exact (h.owned e₁ he₁).origin
        · exact howned.origin
      exact htaken.2 ph hmem horigin.symm
  | _ => exact absurd hseizes id

theorem guarded_of_not_seizes (h : sv.Consistent) {ev : Event} (hseizes : ¬ Seizes sv ev)
    (hstep : sv.step cfg ev = some sv') : Guarded sv sv' := by
  cases ev with
  | accept =>
      obtain rfl := Option.some.inj hstep
      exact guarded_of_sessions (fun _ _ => id) (guarded_refl _)
  | handshakeRead i data draw =>
      obtain ⟨ph, hph, ⟨hlen, rfl⟩ | ⟨-, rfl⟩⟩ := handshakeRead_cases hstep
      · refine guarded_of_sessions (fun _ _ => id)
          (guarded_finishHandshake (consistent_dropHandshake h i) (taken_dropHandshake h hph) ?_
            draw)
        intro j e hnamed hopen hzero
        rw [Server.named, if_pos hlen] at hnamed
        exact hseizes ⟨ph, hph, hlen, hzero, j, e, hnamed, hopen⟩
      · exact guarded_of_sessions (fun _ _ => id) (guarded_refl _)
  | handshakeClosed i =>
      obtain rfl := Option.some.inj hstep
      exact guarded_of_sessions (fun _ _ => id) (guarded_refl _)
  | handshakeTimeout i draw =>
      obtain ⟨ph, hph, rfl⟩ := handshakeTimeout_cases hstep
      refine guarded_of_sessions (fun _ _ => id)
        (guarded_finishHandshake (consistent_dropHandshake h i) (taken_dropHandshake h hph) ?_
          draw)
      intro j e hnamed
      simp [Server.named] at hnamed
  | clientRead i data =>
      obtain ⟨e, fd, he, hfd, rfl⟩ := clientRead_cases hstep
      exact guarded_onData h he hfd
  | session i ev =>
      obtain ⟨e, s, he, hint, hs, rfl⟩ := session_cases hstep
      have hdrift := drift_step (h.sound e (List.mem_of_getElem? he)).orderly hint hs
      exact guarded_put he hdrift.primary
  | expire i =>
      obtain ⟨e, he, rfl⟩ := expire_cases hstep
      have hput : Guarded sv (sv.put i { e with alive := false }) :=
        guarded_put he fun x y hy hx => Option.some.inj (hx.symm.trans hy)
      exact hput

end Server

/-- In every reachable state, a live session with an open primary connection gets another one
only from a connection that presented the hash, exactly when the step does not complete nine
bytes that name such a session and output 0. -/
theorem primary_guarded_iff (cfg : Config) (events : List Event) (sv sv' : Server) (ev : Event)
    (hrun : run (Server.step cfg) {} events = some sv) (hstep : sv.step cfg ev = some sv') :
    Guarded sv sv' ↔ ¬ Seizes sv ev := by
  have hsv : sv.Consistent :=
    invariant_of_run (I := Server.Consistent) (fun _ _ _ h => consistent_step h)
      Server.Consistent.init hrun
  constructor
  · intro hguarded hseizes
    exact not_guarded_of_seizes hsv hseizes hstep hguarded
  · exact fun hseizes => guarded_of_not_seizes hsv hseizes hstep

def sampleConfig : Config := ⟨[], fun _ => List.replicate 64 97, fun _ => true, fun _ => 0⟩

def sampleDraw (sid : UInt64) : Draw := ⟨sid, [49], fun _ => 0, fun _ _ _ => .fails⟩

/-- A client that authenticates. -/
def signIn : List Event :=
  [.accept, .handshakeTimeout 0 (sampleDraw 7),
    .clientRead 0 (authBytes (List.replicate 64 97))]

/-- The client is lost, somebody takes its slot, and it comes back with the hash. -/
theorem primary_guarded_reconnect :
    let chain : Packet := ⟨MSG_CHAIN_CREATE, [0]⟩
    let events := signIn ++
      [.session 0 (.dataRead 0 (.bytes (Wire.WireFrame.control 0 chain).encode)),
        .session 0 .onDisconnect, .accept, .handshakeRead 0 (u64Bytes 7 ++ [0]) (sampleDraw 8),
        .accept, .handshakeTimeout 0 (sampleDraw 9)]
    let ev := Event.clientRead 1
      (serialize ⟨MSG_RECONNECT, u64Bytes 7 ++ List.replicate 64 97⟩)
    ∃ sv sv', run (Server.step sampleConfig) {} events = some sv ∧
      sv.step sampleConfig ev = some sv' ∧ sv.sessions.head?.bind Entry.primary = some 1 ∧
      sv'.sessions.head?.bind Entry.primary = some 2 ∧ Guarded sv sv' := by
  intro chain events ev
  have hsome : ((run (Server.step sampleConfig) {} events).bind
      (Server.step sampleConfig · ev)).isSome := by decide +kernel
  have hbefore : (run (Server.step sampleConfig) {} events).all fun sv =>
      sv.sessions.head?.bind Entry.primary = some 1 := by decide +kernel
  have hafter : ((run (Server.step sampleConfig) {} events).bind
      (Server.step sampleConfig · ev)).all fun sv =>
      sv.sessions.head?.bind Entry.primary = some 2 := by decide +kernel
  obtain ⟨sv', hsv'⟩ := Option.isSome_iff_exists.mp hsome
  obtain ⟨sv, hrun, hstep⟩ := Option.bind_eq_some_iff.mp hsv'
  rw [hsv', Option.all_some, decide_eq_true_eq] at hafter
  rw [hrun, Option.all_some, decide_eq_true_eq] at hbefore
  exact ⟨sv, sv', hrun, hstep, hbefore, hafter,
    (primary_guarded_iff sampleConfig events sv sv' ev hrun hstep).mpr id⟩

/-- Nine bytes take the slot of a client that is connected. -/
theorem primary_seized :
    let events := signIn ++ [.accept]
    let ev := Event.handshakeRead 0 (u64Bytes 7 ++ [0]) (sampleDraw 8)
    ∃ sv sv', run (Server.step sampleConfig) {} events = some sv ∧
      sv.step sampleConfig ev = some sv' ∧ ¬ Guarded sv sv' := by
  intro events ev
  have hsome : ((run (Server.step sampleConfig) {} events).bind
      (Server.step sampleConfig · ev)).isSome := by decide +kernel
  have hbefore : (run (Server.step sampleConfig) {} events).all fun sv =>
      sv.sessions.map (fun e => (e.alive, e.primary)) = [(true, some 0)] := by decide +kernel
  have hafter : ((run (Server.step sampleConfig) {} events).bind
      (Server.step sampleConfig · ev)).all fun sv =>
      sv.sessions.map (fun e => (e.origin, e.primary)) = [(0, some 1)] := by decide +kernel
  obtain ⟨sv', hsv'⟩ := Option.isSome_iff_exists.mp hsome
  obtain ⟨sv, hrun, hstep⟩ := Option.bind_eq_some_iff.mp hsv'
  rw [hsv', Option.all_some, decide_eq_true_eq] at hafter
  rw [hrun, Option.all_some, decide_eq_true_eq] at hbefore
  refine ⟨sv, sv', hrun, hstep, fun hguarded => ?_⟩
  obtain ⟨e, hsessions, he⟩ := List.map_eq_singleton_iff.mp hbefore
  obtain ⟨e', hsessions', he'⟩ := List.map_eq_singleton_iff.mp hafter
  obtain ⟨halive, hy⟩ := Prod.mk.inj he
  obtain ⟨horigin, hx⟩ := Prod.mk.inj he'
  obtain ⟨e₁, he₁, horigin₁, -⟩ :=
    hguarded 0 e e' (by simp [hsessions]) (by simp [hsessions']) halive 1 0 hy hx (by decide)
  have heq : e₁ = e' := by simpa [hsessions'] using he₁
  simp [heq, horigin] at horigin₁

end PipelineTunnel.Registry
