import PipelineTunnel.Core.Protocol

/-!
# Taking packets off a receive buffer

`Session::on_data` and `Client::on_server_data` append a read to `recv_buf_` and take
complete packets off its front until none is left or a handler ends the loop. The three
loops differ in the switch over the packet type and in the test at their end, which are
parameters here.
-/

namespace PipelineTunnel.Protocol

/-- A stream of bytes carries a packet when the parser finds it somewhere in it. -/
def Carries (stream : Bytes) (pkt : Packet) : Prop :=
  ∃ buf n, buf <:+: stream ∧ tryParse buf = some (n, pkt)

theorem Carries.mono {stream stream' : Bytes} {pkt : Packet} (h : Carries stream pkt)
    (hle : stream <:+: stream') : Carries stream' pkt := by
  obtain ⟨buf, n, hbuf, hparse⟩ := h
  exact ⟨buf, n, hbuf.trans hle, hparse⟩

theorem Carries.of_suffix {stream buf : Bytes} {n : Nat} {pkt : Packet} (hbuf : buf <:+ stream)
    (hparse : tryParse buf = some (n, pkt)) : Carries stream pkt :=
  ⟨buf, n, hbuf.isInfix, hparse⟩

/-- A receive loop over states of type `σ`: where its buffer is, the switch over the packet
and the test that ends it early. -/
structure PacketLoop (σ : Type*) where
  recvBuf : σ → Bytes
  setRecvBuf : σ → Bytes → σ
  handle : σ → Packet → σ
  done : σ → Bool

namespace PacketLoop

variable {σ : Type*} (l : PacketLoop σ)

/-- The packet is erased from the buffer before it is handled. -/
def take (s : σ) (consumed : Nat) (pkt : Packet) : σ :=
  l.handle (l.setRecvBuf s ((l.recvBuf s).drop consumed)) pkt

/-- At most `n` rounds of the loop; a round takes at least one byte. -/
def rounds : Nat → σ → σ
  | 0, s => s
  | n + 1, s =>
      match tryParse (l.recvBuf s) with
      | none => s
      | some (consumed, pkt) =>
          if consumed = 0 then s
          else if l.done (l.take s consumed pkt) then l.take s consumed pkt
          else rounds n (l.take s consumed pkt)

/-- The bytes of a read are appended first. -/
def receive (s : σ) (data : Bytes) : σ :=
  let s := l.setRecvBuf s (l.recvBuf s ++ data)
  l.rounds (l.recvBuf s).length s

/-- What every round keeps, the loop keeps. -/
theorem rounds_invariant {I : σ → Prop}
    (hround : ∀ s n pkt, I s → tryParse (l.recvBuf s) = some (n, pkt) → I (l.take s n pkt))
    (n : Nat) {s : σ} (h : I s) : I (l.rounds n s) := by
  induction n generalizing s with
  | zero => exact h
  | succ n ih =>
      simp only [rounds]
      cases hparse : tryParse (l.recvBuf s) with
      | none => exact h
      | some found =>
          obtain ⟨consumed, pkt⟩ := found
          have hnext := hround s consumed pkt h hparse
          dsimp only
          split_ifs
          · exact h
          · exact hnext
          · exact ih hnext

/-- What the switch keeps, whatever is in the buffer, a whole read keeps. -/
theorem receive_invariant {I : σ → Prop} (hset : ∀ s buf, I s → I (l.setRecvBuf s buf))
    (hhandle : ∀ s pkt, I s → I (l.handle s pkt)) {s : σ} (h : I s) (data : Bytes) :
    I (l.receive s data) :=
  l.rounds_invariant (fun s _ pkt hs _ => hhandle _ pkt (hset s _ hs)) _ (hset s _ h)

end PacketLoop

end PipelineTunnel.Protocol
