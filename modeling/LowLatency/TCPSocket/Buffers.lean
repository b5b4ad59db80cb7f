import LowLatency.TCPSocket.Socket

namespace LowLatency.TCPSocket

open Library.Words Library.ByteBuffer SocketUtils

theorem tcpBufferSize_lt : tcpBufferSize < sizeRange := by decide

namespace Socket

def pending (s : Socket) : List Byte := slice s.sendBuffer 0 s.nextSendValidIndex

def unread (s : Socket) : List Byte := slice s.rcvBuffer 0 s.nextRcvValidIndex

structure Bounded (s : Socket) : Prop where
  send : s.nextSendValidIndex ≤ tcpBufferSize
  rcv : s.nextRcvValidIndex ≤ tcpBufferSize

structure SameReceiveSide (s s' : Socket) : Prop where
  fd : s'.fd = s.fd
  buffer : s'.rcvBuffer = s.rcvBuffer
  index : s'.nextRcvValidIndex = s.nextRcvValidIndex
  flag : s'.recvDisconnected = s.recvDisconnected

theorem SameReceiveSide.unread {s s' : Socket} (h : SameReceiveSide s s') :
    s'.unread = s.unread := by
  rw [Socket.unread, Socket.unread, h.buffer, h.index]

theorem SameReceiveSide.bounded {s s' : Socket} (h : SameReceiveSide s s') (hs : s.Bounded)
    (hsend : s'.nextSendValidIndex ≤ tcpBufferSize) : s'.Bounded :=
  ⟨hsend, h.index ▸ hs.rcv⟩

end Socket

def acceptedBytes (calls : List SendCall) : List Byte := calls.flatMap SendCall.accepted

section Send

variable {s : Socket}

theorem send_cases (hle : s.nextSendValidIndex ≤ tcpBufferSize) (data : Data) :
    (s.send data).1 = true ∧ (s.send data).2.pending = s.pending ++ data.contents ∧
      (s.send data).2.nextSendValidIndex = s.nextSendValidIndex + data.contents.length ∧
      (s.send data).2.nextSendValidIndex ≤ tcpBufferSize ∨
    (s.send data).1 = false ∧ (s.send data).2 = s := by
  have hsize := tcpBufferSize_lt
  unfold Socket.send
  by_cases hzero : data.len = 0
  · have hnil : data.contents = [] := by
      cases data with
      | null len => rfl
      | bytes bs => exact List.length_eq_zero_iff.mp hzero
    exact .inl (by simp [hzero, hnil, hle])
  · rw [if_neg hzero]
    cases data with
    | null len => exact .inr ⟨rfl, rfl⟩
    | bytes bs =>
      simp only [sizeSub_eq hle]
      split
      next => exact .inr ⟨rfl, rfl⟩
      next hroom =>
        have hsum : s.nextSendValidIndex + bs.length ≤ tcpBufferSize := by omega
        refine .inl ⟨rfl, ?_, ?_, ?_⟩
        · simp only [Socket.pending, Data.contents, sizeAdd_eq (Nat.lt_of_le_of_lt hsum hsize)]
          exact slice_append _ _ _
        · exact sizeAdd_eq (Nat.lt_of_le_of_lt hsum hsize)
        · simpa only [sizeAdd_eq (Nat.lt_of_le_of_lt hsum hsize)] using hsum

theorem send_frame (s : Socket) (data : Data) :
    Socket.SameReceiveSide s (s.send data).2 ∧
      (s.send data).2.sendDisconnected = s.sendDisconnected := by
  unfold Socket.send
  split
  · exact ⟨⟨rfl, rfl, rfl, rfl⟩, rfl⟩
  · split
    · exact ⟨⟨rfl, rfl, rfl, rfl⟩, rfl⟩
    · split <;> exact ⟨⟨rfl, rfl, rfl, rfl⟩, rfl⟩

theorem send_bounded (hs : s.Bounded) (data : Data) : (s.send data).2.Bounded := by
  rcases send_cases hs.send data with ⟨-, -, -, hle⟩ | ⟨-, he⟩
  · exact (send_frame s data).1.bounded hs hle
  · rwa [he]

end Send

section Flush

variable (buffer : ℕ → Byte) (kernel : ℕ → SendResult) {next : ℕ}

/-- The loop hands over a segment of the queue that starts at `total_sent`, and
stays inside the queue. -/
theorem flushLoop_spec (hn : next < sizeRange) (fuel round totalSent : ℕ)
    (ht : totalSent ≤ next) (out : Flushed)
    (hout : flushLoop buffer next kernel fuel round totalSent = out) :
    totalSent ≤ out.totalSent ∧ out.totalSent ≤ next ∧
      acceptedBytes out.calls = slice buffer totalSent (out.totalSent - totalSent) := by
  induction fuel generalizing round totalSent out with
  | zero =>
    subst hout
    exact ⟨le_rfl, ht, by simp [flushLoop, acceptedBytes]⟩
  | succ fuel ih =>
    simp only [flushLoop, sizeSub_eq ht] at hout
    split at hout
    next hlt =>
      cases hk : kernel round with
      | error e =>
        rw [hk] at hout
        subst hout
        exact ⟨le_rfl, ht, by simp [acceptedBytes]⟩
      | sent count =>
        simp only [hk] at hout
        split at hout
        next =>
          subst hout
          exact ⟨le_rfl, ht, by simp [acceptedBytes]⟩
        next hsent =>
          have hle : totalSent + min count (next - totalSent) ≤ next := by omega
          rw [sizeAdd_eq (Nat.lt_of_le_of_lt hle hn)] at hout
          obtain ⟨h₁, h₂, h₃⟩ := ih (round + 1) _ hle _ rfl
          subst hout
          dsimp only
          refine ⟨by omega, h₂, ?_⟩
          rw [acceptedBytes, List.flatMap_cons, ← acceptedBytes, h₃, slice_take _ _ (by omega),
            ← slice_add]
          congr 1
          omega
    next hge =>
      subst hout
      exact ⟨le_rfl, ht, by simp [acceptedBytes]⟩

theorem flush_fields (s : Socket) (out : Flushed)
    (hout : flushLoop s.sendBuffer s.nextSendValidIndex kernel s.nextSendValidIndex 0 0 = out)
    (hle : out.totalSent ≤ s.nextSendValidIndex) :
    (s.flush kernel).1 = out.calls ∧
      (s.flush kernel).2.sendDisconnected = (s.sendDisconnected || out.fatal) ∧
      (s.flush kernel).2.nextSendValidIndex = s.nextSendValidIndex - out.totalSent ∧
      (s.flush kernel).2.pending =
        slice s.sendBuffer out.totalSent (s.nextSendValidIndex - out.totalSent) := by
  unfold Socket.flush
  rw [hout]
  obtain ⟨totalSent, fatal, calls⟩ := out
  dsimp only at hle ⊢
  by_cases hpos : 0 < totalSent
  · have hmoved : slice (if 0 < s.nextSendValidIndex - totalSent then
        move s.sendBuffer 0 totalSent (s.nextSendValidIndex - totalSent) else s.sendBuffer) 0
        (s.nextSendValidIndex - totalSent) =
        slice s.sendBuffer totalSent (s.nextSendValidIndex - totalSent) := by
      split
      next => exact slice_move _ _ _
      next => simp [show s.nextSendValidIndex - totalSent = 0 by omega]
    rw [if_pos hpos]
    cases fatal <;> simp only [Socket.pending, sizeSub_eq hle, hmoved, if_true, if_false,
      Bool.false_eq_true, Bool.or_true, Bool.or_false, and_self]
  · rw [if_neg hpos, show totalSent = 0 by omega]
    cases fatal <;> simp [Socket.pending]

theorem flush_spec {s : Socket} (hs : s.Bounded) :
    acceptedBytes (s.flush kernel).1 ++ (s.flush kernel).2.pending = s.pending ∧
      (s.flush kernel).2.nextSendValidIndex ≤ s.nextSendValidIndex := by
  have hn := Nat.lt_of_le_of_lt hs.send tcpBufferSize_lt
  obtain ⟨-, hle, hacc⟩ := flushLoop_spec s.sendBuffer kernel hn
    s.nextSendValidIndex 0 0 (Nat.zero_le _) _ rfl
  obtain ⟨hcalls, -, hindex, hpending⟩ := flush_fields kernel s _ rfl hle
  rw [hcalls, hindex, hpending, hacc, Nat.sub_zero, Socket.pending, slice_split s.sendBuffer 0 hle,
    Nat.zero_add]
  exact ⟨rfl, Nat.sub_le _ _⟩

theorem flush_frame (s : Socket) :
    Socket.SameReceiveSide s (s.flush kernel).2 := by
  unfold Socket.flush
  dsimp only
  split <;> split <;> exact ⟨rfl, rfl, rfl, rfl⟩

theorem flush_bounded {s : Socket} (hs : s.Bounded) :
    (s.flush kernel).2.Bounded :=
  (flush_frame kernel s).bounded hs (Nat.le_trans (flush_spec kernel hs).2 hs.send)

end Flush

section Stall

/-- From call `round` on, the kernel stops taking the `n` queued bytes before
all are taken, by a temporary error or by accepting none. -/
inductive Stalls (kernel : ℕ → SendResult) : ℕ → ℕ → Prop
  | blocked {round n : ℕ} {e : Errno} :
      0 < n → kernel round = .error e → wouldBlock e = true → Stalls kernel round n
  | zero {round n : ℕ} : 0 < n → kernel round = .sent 0 → Stalls kernel round n
  | more {round n count : ℕ} : kernel round = .sent count → 0 < count → count < n →
      Stalls kernel (round + 1) (n - count) → Stalls kernel round n

def SendCall.broken (call : SendCall) : Bool :=
  match call.failed with
  | some e => !wouldBlock e
  | none => false

section

variable {kernel : ℕ → SendResult} {round n : ℕ}

theorem stalls_zero : ¬ Stalls kernel round 0 := by
  intro h
  cases h <;> omega

theorem stalls_error {e : Errno} (hk : kernel round = .error e) :
    Stalls kernel round n ↔ 0 < n ∧ wouldBlock e = true := by
  constructor
  · intro h
    cases h with
    | blocked hn hk' hw =>
      cases hk.symm.trans hk'
      exact ⟨hn, hw⟩
    | zero _ hk' => cases hk.symm.trans hk'
    | more hk' => cases hk.symm.trans hk'
  · rintro ⟨hn, hw⟩
    exact .blocked hn hk hw

theorem stalls_sent {count : ℕ} (hk : kernel round = .sent count) (hc : 0 < count) :
    Stalls kernel round n ↔ Stalls kernel (round + 1) (n - count) := by
  constructor
  · intro h
    cases h with
    | blocked _ hk' => cases hk.symm.trans hk'
    | zero _ hk' =>
      cases hk.symm.trans hk'
      omega
    | more hk' _ _ h =>
      cases hk.symm.trans hk'
      exact h
  · intro h
    by_cases hlt : count < n
    · exact .more hk hc hlt h
    · rw [show n - count = 0 by omega] at h
      exact absurd h stalls_zero

end

variable (buffer : ℕ → Byte) (kernel : ℕ → SendResult) {next : ℕ}

theorem flushLoop_stalls (hn : next < sizeRange) (fuel round totalSent : ℕ) (ht : totalSent ≤ next)
    (hfuel : next - totalSent ≤ fuel) (out : Flushed)
    (hout : flushLoop buffer next kernel fuel round totalSent = out) :
    out.fatal = out.calls.any SendCall.broken ∧
      (out.totalSent < next ∧ out.fatal = false ↔ Stalls kernel round (next - totalSent)) := by
  induction fuel generalizing round totalSent out with
  | zero =>
    subst hout
    rw [show next - totalSent = 0 by omega]
    refine ⟨rfl, iff_of_false (?_) stalls_zero⟩
    intro h
    simp only [flushLoop] at h
    omega
  | succ fuel ih =>
    simp only [flushLoop, sizeSub_eq ht] at hout
    split at hout
    next hlt =>
      have hpos : 0 < next - totalSent := by omega
      cases hk : kernel round with
      | error e =>
        rw [hk] at hout
        subst hout
        refine ⟨by simp [SendCall.broken], ?_⟩
        simp [stalls_error hk, hlt, hpos]
      | sent count =>
        simp only [hk] at hout
        split at hout
        next hsent =>
          have hcount : count = 0 := by omega
          subst hout hcount
          exact ⟨rfl, iff_of_true ⟨hlt, rfl⟩ (.zero hpos hk)⟩
        next hsent =>
          have hle : totalSent + min count (next - totalSent) ≤ next := by omega
          rw [sizeAdd_eq (Nat.lt_of_le_of_lt hle hn)] at hout
          obtain ⟨hfatal, hstall⟩ := ih (round + 1) _ hle (by omega) _ rfl
          subst hout
          refine ⟨by simp [hfatal, SendCall.broken], hstall.trans ?_⟩
          rw [stalls_sent hk (by omega), show next - (totalSent + min count (next - totalSent)) =
            next - totalSent - count by omega]
    next hge =>
      subst hout
      rw [show next - totalSent = 0 by omega]
      exact ⟨rfl, iff_of_false (fun h ↦ hge h.1) stalls_zero⟩

/-- A flush sets the send flag exactly on a fatal error, and leaves bytes
behind without one exactly when the kernel stalls. -/
theorem flush_stalls {s : Socket} (hs : s.nextSendValidIndex ≤ tcpBufferSize) :
    (s.flush kernel).2.sendDisconnected =
        (s.sendDisconnected || (s.flush kernel).1.any SendCall.broken) ∧
      (s.flush kernel).2.nextSendValidIndex ≤ s.nextSendValidIndex ∧
      ((s.flush kernel).2.nextSendValidIndex ≠ 0 ∧ (s.flush kernel).1.any SendCall.broken = false ↔
        Stalls kernel 0 s.nextSendValidIndex) := by
  have hn := Nat.lt_of_le_of_lt hs tcpBufferSize_lt
  obtain ⟨-, hle, -⟩ := flushLoop_spec s.sendBuffer kernel hn
    s.nextSendValidIndex 0 0 (Nat.zero_le _) _ rfl
  obtain ⟨hfatal, hstall⟩ := flushLoop_stalls s.sendBuffer kernel hn s.nextSendValidIndex 0 0
    (Nat.zero_le _) (Nat.sub_le _ _) _ rfl
  obtain ⟨hcalls, hflag, hindex, -⟩ := flush_fields kernel s _ rfl hle
  rw [Nat.sub_zero] at hstall
  rw [hcalls, hflag, hindex, ← hfatal, ← hstall]
  refine ⟨rfl, Nat.sub_le _ _, and_congr_left ?_⟩
  intro _
  omega

end Stall

section Receive

variable {s : Socket}

theorem iovLen_eq (hs : s.Bounded) : s.iovLen = tcpBufferSize - s.nextRcvValidIndex :=
  sizeSub_eq hs.rcv

theorem receive_spec (hs : s.Bounded) (kernel : RecvResult) :
    (s.receive kernel).2.2.unread = s.unread ++ (s.receive kernel).1.bytes ∧
      (s.receive kernel).2.2.nextRcvValidIndex =
        s.nextRcvValidIndex + (s.receive kernel).1.bytes.length ∧
      (s.receive kernel).1.bytes.length ≤ s.iovLen ∧
      ((s.receive kernel).2.1.isSome ↔ (s.receive kernel).1.bytes ≠ []) := by
  have hlen := iovLen_eq hs
  have hsize := tcpBufferSize_lt
  have hle := hs.rcv
  unfold Socket.receive
  cases kernel with
  | received bytes control =>
    dsimp only
    have htake : (bytes.take s.iovLen).length ≤ s.iovLen := List.length_take_le _ _
    split
    next hpos =>
      have hne : bytes.take s.iovLen ≠ [] := List.ne_nil_of_length_pos hpos
      have hadd : sizeAdd s.nextRcvValidIndex (bytes.take s.iovLen).length =
          s.nextRcvValidIndex + (bytes.take s.iovLen).length := sizeAdd_eq (by omega)
      refine ⟨?_, hadd, htake, by simpa using hne⟩
      simp only [Socket.unread, hadd]
      exact slice_append _ _ _
    next hzero =>
      have hnil : bytes.take s.iovLen = [] := List.length_eq_zero_iff.mp (by omega)
      simp [Socket.unread, hnil]
  | error e =>
    dsimp only
    split <;> simp [Socket.unread]

theorem receive_frame (s : Socket) (kernel : RecvResult) :
    (s.receive kernel).2.2.fd = s.fd ∧
      (s.receive kernel).2.2.sendBuffer = s.sendBuffer ∧
      (s.receive kernel).2.2.nextSendValidIndex = s.nextSendValidIndex ∧
      (s.receive kernel).2.2.sendDisconnected = s.sendDisconnected := by
  unfold Socket.receive
  cases kernel with
  | received bytes control =>
    dsimp only
    split <;> exact ⟨rfl, rfl, rfl, rfl⟩
  | error e =>
    dsimp only
    split <;> exact ⟨rfl, rfl, rfl, rfl⟩

/-- The outcome is a sign that no more bytes will come: end of stream, or an
error that is not temporary. -/
def RecvResult.ends : RecvResult → Bool
  | .received bytes _ => bytes.isEmpty
  | .error e => !wouldBlock e

def RecvResult.delivers : RecvResult → Bool
  | .received bytes _ => !bytes.isEmpty
  | .error _ => false

theorem receive_ends (hroom : s.nextRcvValidIndex < tcpBufferSize) (kernel : RecvResult) :
    (s.receive kernel).2.2.recvDisconnected = (s.recvDisconnected || kernel.ends) ∧
      (s.receive kernel).2.1.isSome = kernel.delivers := by
  have hlen : 0 < s.iovLen := by
    rw [Socket.iovLen, sizeSub_eq (Nat.le_of_lt hroom)]
    omega
  unfold Socket.receive
  cases kernel with
  | received bytes control =>
    cases bytes with
    | nil => simp [RecvResult.ends, RecvResult.delivers]
    | cons b bytes =>
      have hpos : 0 < ((b :: bytes).take s.iovLen).length := by
        rw [List.length_take, List.length_cons]
        omega
      dsimp only
      rw [if_pos hpos]
      simp [RecvResult.ends, RecvResult.delivers]
  | error e =>
    cases hw : wouldBlock e <;> simp [RecvResult.ends, RecvResult.delivers, hw]

theorem receive_pending (s : Socket) (kernel : RecvResult) :
    (s.receive kernel).2.2.pending = s.pending := by
  obtain ⟨-, hb, hi, -⟩ := receive_frame s kernel
  rw [Socket.pending, Socket.pending, hb, hi]

theorem receive_bounded (hs : s.Bounded) (kernel : RecvResult) :
    (s.receive kernel).2.2.Bounded := by
  obtain ⟨-, hidx, hlen, -⟩ := receive_spec hs kernel
  obtain ⟨-, -, hi, -⟩ := receive_frame s kernel
  rw [iovLen_eq hs] at hlen
  have hle := hs.rcv
  exact ⟨hi ▸ hs.send, by omega⟩

end Receive

section Call

variable {W : Type*} (this : Place W) (io : Io) (cb : Nanos → W → W) (w : W)

theorem sendAndRecv_closed (hfd : (this.get w).fd < 0) :
    sendAndRecv this io cb w = (.none, w) := by
  simp only [sendAndRecv, if_pos hfd]

theorem sendAndRecv_full (hfd : ¬ (this.get w).fd < 0)
    (hfull : (this.get w).nextRcvValidIndex ≥ tcpBufferSize) :
    sendAndRecv this io cb w =
      (.none, this.set { this.get w with recvDisconnected := true } w) := by
  simp only [sendAndRecv, if_neg hfd, if_pos hfull]

theorem sendAndRecv_open (hfd : ¬ (this.get w).fd < 0)
    (hroom : ¬ (this.get w).nextRcvValidIndex ≥ tcpBufferSize) :
    ∃ w₁, (((this.get w).receive io.recv).2.1 = none ∧
          w₁ = this.set ((this.get w).receive io.recv).2.2 w ∨
        ∃ t, ((this.get w).receive io.recv).2.1 = some t ∧
          w₁ = cb t (this.set ((this.get w).receive io.recv).2.2 w)) ∧
      sendAndRecv this io cb w =
        (⟨((this.get w).receive io.recv).2.1.isSome, some ((this.get w).receive io.recv).1,
          ((this.get w).receive io.recv).2.1, ((this.get w₁).flush io.send).1⟩,
          this.set ((this.get w₁).flush io.send).2 w₁) := by
  unfold sendAndRecv
  simp only [if_neg hfd, if_neg hroom]
  cases htime : ((this.get w).receive io.recv).2.1 with
  | none => exact ⟨_, .inl ⟨rfl, rfl⟩, rfl⟩
  | some t => exact ⟨_, .inr ⟨t, rfl, rfl⟩, rfl⟩

theorem sendAndRecv_split (R : W → W → Prop) (hrefl : ∀ w, R w w)
    (htrans : ∀ {u v w}, R u v → R v w → R u w)
    (hset : ∀ w s, s.fd = (this.get w).fd → R w (this.set s w)) :
    (sendAndRecv this io cb w).1.returned = false ∧ R w (sendAndRecv this io cb w).2 ∨
    (sendAndRecv this io cb w).1.returned = true ∧
      ∃ t w₁, R w w₁ ∧ R (cb t w₁) (sendAndRecv this io cb w).2 := by
  by_cases hfd : (this.get w).fd < 0
  · rw [sendAndRecv_closed this io cb w hfd]
    exact .inl ⟨rfl, hrefl w⟩
  by_cases hfull : (this.get w).nextRcvValidIndex ≥ tcpBufferSize
  · rw [sendAndRecv_full this io cb w hfd hfull]
    exact .inl ⟨rfl, hset w _ rfl⟩
  obtain ⟨w₁, hw₁, hcall⟩ := sendAndRecv_open this io cb w hfd hfull
  have hflush := hset w₁ _ (flush_frame io.send (this.get w₁)).fd
  have hrecv := hset w _ (receive_frame (this.get w) io.recv).1
  rw [hcall]
  rcases hw₁ with ⟨htime, rfl⟩ | ⟨t, htime, rfl⟩
  · exact .inl ⟨by simp [htime], htrans hrecv hflush⟩
  · exact .inr ⟨by simp [htime], t, _, hrecv, hflush⟩

end Call

end LowLatency.TCPSocket
