import LowLatency.TCPSocket.Reuse

namespace LowLatency.TCPSocket

/-- A relation between sockets that the steps of `sendAndRecv()` cannot tell
apart and that they keep. -/
structure Respected (S : Socket → Socket → Prop) : Prop where
  fd : ∀ {x y}, S x y → x.fd = y.fd
  rcvIndex : ∀ {x y}, S x y → x.nextRcvValidIndex = y.nextRcvValidIndex
  full : ∀ {x y}, S x y → S { x with recvDisconnected := true } { y with recvDisconnected := true }
  receive : ∀ {x y}, S x y → x.nextRcvValidIndex < tcpBufferSize → ∀ kernel,
    (x.receive kernel).1 = (y.receive kernel).1 ∧
      (x.receive kernel).2.1 = (y.receive kernel).2.1 ∧
      S (x.receive kernel).2.2 (y.receive kernel).2.2
  flush : ∀ {x y}, S x y → ∀ kernel,
    (x.flush kernel).1 = (y.flush kernel).1 ∧ S (x.flush kernel).2 (y.flush kernel).2

theorem similar_respected : Respected Similar where
  fd h := h.fd
  rcvIndex h := h.rcvIndex
  full h := { h with recvFlag := rfl }
  receive h hroom kernel := h.receive hroom kernel
  flush h kernel := h.flush kernel

theorem eq_respected : Respected (· = ·) where
  fd h := h ▸ rfl
  rcvIndex h := h ▸ rfl
  full h := h ▸ rfl
  receive h _ _ := h ▸ ⟨rfl, rfl, rfl⟩
  flush h _ := h ▸ ⟨rfl, rfl⟩

variable {W W' : Type*} {S : Socket → Socket → Prop} {w : W} {w' : W'}

/-- `sendAndRecv()` does the same in two worlds that agree on the socket at
`this`, if the callbacks do. -/
theorem sendAndRecv_congr (hS : Respected S) (this : Place W) (this' : Place W') (io : Io)
    (cb : Nanos → W → W) (cb' : Nanos → W' → W') (R : W → W' → Prop)
    (hget : ∀ w w', R w w' → S (this.get w) (this'.get w'))
    (hset : ∀ w w' x y, R w w' → S x y → R (this.set x w) (this'.set y w'))
    (hcb : ∀ time w w', R w w' → R (cb time w) (cb' time w')) (h : R w w') :
    (sendAndRecv this io cb w).1 = (sendAndRecv this' io cb' w').1 ∧
      R (sendAndRecv this io cb w).2 (sendAndRecv this' io cb' w').2 := by
  have hs := hget w w' h
  by_cases hfd : (this.get w).fd < 0
  · rw [sendAndRecv_closed this io cb w hfd, sendAndRecv_closed this' io cb' w' (hS.fd hs ▸ hfd)]
    exact ⟨rfl, h⟩
  by_cases hfull : (this.get w).nextRcvValidIndex ≥ tcpBufferSize
  · rw [sendAndRecv_full this io cb w hfd hfull,
      sendAndRecv_full this' io cb' w' (hS.fd hs ▸ hfd) (hS.rcvIndex hs ▸ hfull)]
    exact ⟨rfl, hset _ _ _ _ h (hS.full hs)⟩
  obtain ⟨hcall, htime, hr⟩ := hS.receive hs (Nat.lt_of_not_le hfull) io.recv
  have hmid := hset _ _ _ _ h hr
  unfold sendAndRecv
  rw [if_neg hfd, if_neg hfull, if_neg (hS.fd hs ▸ hfd), if_neg (hS.rcvIndex hs ▸ hfull)]
  dsimp only
  rw [← htime, ← hcall]
  cases ((this.get w).receive io.recv).2.1 with
  | none =>
    obtain ⟨hsends, hf⟩ := hS.flush (hget _ _ hmid) io.send
    exact ⟨by rw [hsends], hset _ _ _ _ hmid hf⟩
  | some time =>
    have hback := hcb time _ _ hmid
    obtain ⟨hsends, hf⟩ := hS.flush (hget _ _ hback) io.send
    exact ⟨by rw [hsends], hset _ _ _ _ hback hf⟩

end LowLatency.TCPSocket
