import LowLatency.TCPSocket.Reuse

namespace LowLatency.TCPSocket

open Library.Words Library.ByteBuffer Library.Runs SocketUtils

def checkRange (off len : ℕ) : Option Unit := check (off + len ≤ tcpBufferSize)

def checkIndices (s : Socket) : Option Socket :=
  if s.nextSendValidIndex ≤ tcpBufferSize ∧ s.nextRcvValidIndex ≤ tcpBufferSize then some s
  else none

namespace Socket

/-- `send()`, which fails when an index wraps or `memcpy` leaves the buffer. -/
def sendChecked (data : Data) (s : Socket) : Option (Bool × Socket) :=
  if data.len = 0 then some (true, s)
  else
    match data with
    | .null _ => some (false, s)
    | .bytes bs =>
      if s.nextSendValidIndex > tcpBufferSize then some (false, s)
      else do
        let room ← checkedSub tcpBufferSize s.nextSendValidIndex
        if bs.length > room then some (false, s)
        else do
          checkRange s.nextSendValidIndex bs.length
          let next ← checkedAdd s.nextSendValidIndex bs.length
          let s ← checkIndices { s with
            sendBuffer := copyIn s.sendBuffer s.nextSendValidIndex bs
            nextSendValidIndex := next }
          some (true, s)

/-- The `recvmsg` of `sendAndRecv()`, which fails when it is given no room or
room outside the buffer. -/
def receiveChecked (kernel : RecvResult) (s : Socket) :
    Option (RecvCall × Option Nanos × Socket) := do
  let iovLen ← checkedSub tcpBufferSize s.nextRcvValidIndex
  checkRange s.nextRcvValidIndex iovLen
  check (0 < iovLen)
  match kernel with
  | .received bytes control =>
    let received := bytes.take iovLen
    if 0 < received.length then do
      let next ← checkedAdd s.nextRcvValidIndex received.length
      let s ← checkIndices { s with
        rcvBuffer := copyIn s.rcvBuffer s.nextRcvValidIndex received
        nextRcvValidIndex := next }
      some (⟨iovLen, received, none⟩, some (kernelTime control), s)
    else some (⟨iovLen, received, none⟩, none, { s with recvDisconnected := true })
  | .error e =>
    some (⟨iovLen, [], some e⟩, none,
      if wouldBlock e then s else { s with recvDisconnected := true })

end Socket

/-- The flush loop, which fails when it has not ended after `fuel` rounds, when
`total_sent` passes the queued bytes or when `::send` reads outside the buffer. -/
def flushLoopChecked (buffer : ℕ → Byte) (next : ℕ) (kernel : ℕ → SendResult) :
    ℕ → ℕ → ℕ → Option Flushed
  | 0, _, totalSent => do
    check (totalSent = next)
    some ⟨totalSent, false, []⟩
  | fuel + 1, round, totalSent => do
    check (totalSent ≤ next)
    if totalSent < next then do
      let remaining ← checkedSub next totalSent
      checkRange totalSent remaining
      let offered := slice buffer totalSent remaining
      match kernel round with
      | .error e => some ⟨totalSent, !wouldBlock e, [⟨offered, [], some e⟩]⟩
      | .sent count =>
        let sent := min count remaining
        if sent = 0 then some ⟨totalSent, false, [⟨offered, [], none⟩]⟩
        else do
          let totalSent ← checkedAdd totalSent sent
          let rest ← flushLoopChecked buffer next kernel fuel (round + 1) totalSent
          some { rest with calls := ⟨offered, offered.take sent, none⟩ :: rest.calls }
    else some ⟨totalSent, false, []⟩

def Socket.flushChecked (kernel : ℕ → SendResult) (s : Socket) :
    Option (List SendCall × Socket) := do
  let out ← flushLoopChecked s.sendBuffer s.nextSendValidIndex kernel s.nextSendValidIndex 0 0
  let s := if out.fatal then { s with sendDisconnected := true } else s
  if 0 < out.totalSent then do
    let unsent ← checkedSub s.nextSendValidIndex out.totalSent
    if 0 < unsent then do
      checkRange 0 unsent
      checkRange out.totalSent unsent
      some (out.calls, { s with
        sendBuffer := move s.sendBuffer 0 out.totalSent unsent
        nextSendValidIndex := unsent })
    else some (out.calls, { s with nextSendValidIndex := unsent })
  else some (out.calls, s)

/-- What a callback may do outside the send side: anything but raise
`next_rcv_valid_index_`. -/
structure Touch where
  apply : Socket → Socket
  sendBuffer : ∀ s, (apply s).sendBuffer = s.sendBuffer
  sendIndex : ∀ s, (apply s).nextSendValidIndex = s.nextSendValidIndex
  rcvIndex : ∀ s, (apply s).nextRcvValidIndex ≤ s.nextRcvValidIndex

inductive Handler
  | done
  | send (data : Data) (next : Bool → Handler)
  | touch (t : Touch) (next : Handler)

namespace Handler

def run : Handler → Socket → Socket
  | done, s => s
  | send data next, s => (next (s.send data).1).run (s.send data).2
  | touch t next, s => next.run (t.apply s)

def runChecked : Handler → Socket → Option Socket
  | done, s => some s
  | send data next, s => do
    let (ok, s) ← s.sendChecked data
    (next ok).runChecked s
  | touch t next, s => do
    let s ← checkIndices (t.apply s)
    next.runChecked s

end Handler

def Place.self : Place Socket where
  get s := s
  set s _ := s
  get_set _ _ := rfl

def sendAndRecvChecked (io : Io) (recvCallback : Nanos → Socket → Handler) (s : Socket) :
    Option (Record × Socket) :=
  if s.fd < 0 then some (.none, s)
  else if s.nextRcvValidIndex ≥ tcpBufferSize then
    some (.none, { s with recvDisconnected := true })
  else do
    let (call, time, s) ← s.receiveChecked io.recv
    let s ← match time with
      | some t => (recvCallback t s).runChecked s
      | none => some s
    let (sends, s) ← s.flushChecked io.send
    some (⟨time.isSome, some call, time, sends⟩, s)

abbrev Use := Op × (Nanos → Socket → Handler)

def Use.run (u : Use) (s : Socket) : Record × Socket :=
  call .self (fun t s ↦ (u.2 t s).run s) u.1 s

def Use.runChecked (u : Use) (s : Socket) : Option (Record × Socket) :=
  match u.1 with
  | .send data => do
    let (ok, s) ← s.sendChecked data
    some ({ Record.none with returned := ok }, s)
  | .sendAndRecv io => sendAndRecvChecked io u.2 s
  | .destroy => some (.none, s.destroy)
  | .connect created => some (.none, s.connect created)

section Soundness

variable {s : Socket}

theorem checkRange_eq {off len : ℕ} (h : off + len ≤ tcpBufferSize) :
    checkRange off len = some () := check_eq h

theorem checkIndices_eq (hs : s.Bounded) : checkIndices s = some s := if_pos ⟨hs.send, hs.rcv⟩

theorem sendChecked_eq (hs : s.Bounded) (data : Data) :
    s.sendChecked data = some (s.send data) := by
  have hsend := hs.send
  unfold Socket.sendChecked Socket.send
  split
  next => rfl
  next =>
    cases data with
    | null len => rfl
    | bytes bs =>
      have hnot : ¬ s.nextSendValidIndex > tcpBufferSize := by omega
      dsimp only
      rw [if_neg hnot, checkedSub_eq hsend, Option.bind_eq_bind, Option.bind_some]
      simp only [hnot, false_or]
      split
      next => rfl
      next hroom =>
        rw [sizeSub_eq hsend] at hroom
        have hsum : s.nextSendValidIndex + bs.length ≤ tcpBufferSize := by omega
        have hadd : s.nextSendValidIndex + bs.length < sizeRange :=
          Nat.lt_of_le_of_lt hsum tcpBufferSize_lt
        simp only [checkRange_eq hsum, checkedAdd_eq hadd, Option.bind_eq_bind, Option.bind_some]
        rw [checkIndices_eq]
        · rfl
        · exact ⟨(sizeAdd_eq hadd).trans_le hsum, hs.rcv⟩

theorem receiveChecked_eq (hs : s.Bounded) (hroom : s.nextRcvValidIndex < tcpBufferSize)
    (kernel : RecvResult) : s.receiveChecked kernel = some (s.receive kernel) := by
  have hiov := iovLen_eq hs
  have hsize := tcpBufferSize_lt
  unfold Socket.receiveChecked Socket.receive
  rw [checkedSub_eq hs.rcv, ← Socket.iovLen]
  simp only [Option.bind_eq_bind, Option.bind_some,
    checkRange_eq (by omega : s.nextRcvValidIndex + s.iovLen ≤ tcpBufferSize),
    check_eq (p := 0 < s.iovLen) (by omega)]
  cases kernel with
  | error e => rfl
  | received bytes control =>
    have htake : (bytes.take s.iovLen).length ≤ s.iovLen := List.length_take_le _ _
    have hadd : s.nextRcvValidIndex + (bytes.take s.iovLen).length < sizeRange := by omega
    dsimp only
    split
    next =>
      rw [checkedAdd_eq hadd, Option.bind_some, checkIndices_eq]
      · rfl
      · exact ⟨hs.send, (sizeAdd_eq hadd).trans_le (by omega)⟩
    next => rfl

theorem flushLoopChecked_eq (buffer : ℕ → Byte) {next : ℕ} (hn : next ≤ tcpBufferSize)
    (kernel : ℕ → SendResult) (fuel round totalSent : ℕ) (ht : totalSent ≤ next)
    (hfuel : next - totalSent ≤ fuel) :
    flushLoopChecked buffer next kernel fuel round totalSent =
      some (flushLoop buffer next kernel fuel round totalSent) := by
  induction fuel generalizing round totalSent with
  | zero =>
    rw [flushLoopChecked, check_eq (show totalSent = next by omega)]
    rfl
  | succ fuel ih =>
    simp only [flushLoopChecked, flushLoop, check_eq ht, checkedSub_eq ht, sizeSub_eq ht,
      Option.bind_eq_bind, Option.bind_some]
    split
    next hlt =>
      rw [checkRange_eq (by omega), Option.bind_some]
      cases kernel round with
      | error e => rfl
      | sent count =>
        dsimp only
        split
        next => rfl
        next hsent =>
          have hsize := tcpBufferSize_lt
          have hadd : totalSent + min count (next - totalSent) < sizeRange := by omega
          rw [checkedAdd_eq hadd, sizeAdd_eq hadd, Option.bind_some,
            ih (round + 1) _ (by omega) (by omega), Option.bind_some]
    next => rfl

theorem flushChecked_eq (hs : s.Bounded) (kernel : ℕ → SendResult) :
    s.flushChecked kernel = some (s.flush kernel) := by
  have hloop := flushLoopChecked_eq s.sendBuffer hs.send kernel s.nextSendValidIndex 0 0
    (Nat.zero_le _) (Nat.sub_le _ _)
  obtain ⟨-, hle, -⟩ := flushLoop_spec s.sendBuffer kernel
    (Nat.lt_of_le_of_lt hs.send tcpBufferSize_lt) s.nextSendValidIndex 0 0 (Nat.zero_le _) _ rfl
  unfold Socket.flushChecked Socket.flush
  rw [hloop, Option.bind_eq_bind, Option.bind_some]
  generalize flushLoop s.sendBuffer s.nextSendValidIndex kernel s.nextSendValidIndex 0 0 = out
    at hle
  obtain ⟨totalSent, fatal, calls⟩ := out
  have hsend := hs.send
  dsimp only at hle ⊢
  have hindex : (if fatal then { s with sendDisconnected := true } else s).nextSendValidIndex =
      s.nextSendValidIndex := by cases fatal <;> rfl
  generalize (if fatal then { s with sendDisconnected := true } else s) = s' at hindex ⊢
  rw [← hindex] at hle hsend
  split
  next =>
    rw [checkedSub_eq hle, sizeSub_eq hle, Option.bind_eq_bind, Option.bind_some]
    split
    next =>
      rw [checkRange_eq (by omega), checkRange_eq (by omega)]
      rfl
    next => rfl
  next => rfl

theorem Touch.bounded (t : Touch) (hs : s.Bounded) : (t.apply s).Bounded :=
  ⟨(t.sendIndex s).trans_le hs.send, (t.rcvIndex s).trans hs.rcv⟩

theorem Handler.runChecked_eq (p : Handler) (hs : s.Bounded) :
    p.runChecked s = some (p.run s) ∧ (p.run s).Bounded := by
  induction p generalizing s with
  | done => exact ⟨rfl, hs⟩
  | send data next ih =>
    rw [Handler.runChecked, Handler.run, sendChecked_eq hs data]
    exact ih _ (send_bounded hs data)
  | touch t next ih =>
    rw [Handler.runChecked, Handler.run, checkIndices_eq (t.bounded hs)]
    exact ih (t.bounded hs)

theorem sendAndRecvChecked_eq (hs : s.Bounded) (io : Io) (cb : Nanos → Socket → Handler) :
    sendAndRecvChecked io cb s = some (sendAndRecv .self io (fun t s ↦ (cb t s).run s) s) ∧
      (sendAndRecv .self io (fun t s ↦ (cb t s).run s) s).2.Bounded := by
  unfold sendAndRecvChecked
  by_cases hfd : s.fd < 0
  · rw [sendAndRecv_closed .self io _ s hfd, if_pos hfd]
    exact ⟨rfl, hs⟩
  by_cases hfull : s.nextRcvValidIndex ≥ tcpBufferSize
  · rw [sendAndRecv_full .self io _ s hfd hfull, if_neg hfd, if_pos hfull]
    exact ⟨rfl, hs.send, hs.rcv⟩
  obtain ⟨w, hw, hrun⟩ := sendAndRecv_open .self io (fun t s ↦ (cb t s).run s) s hfd hfull
  have hrecv := receive_bounded hs io.recv
  rw [hrun, if_neg hfd, if_neg hfull, receiveChecked_eq hs (Nat.lt_of_not_le hfull) io.recv]
  simp only [Option.bind_eq_bind, Option.bind_some, Place.self] at hw ⊢
  rcases hw with ⟨htime, rfl⟩ | ⟨t, htime, rfl⟩
  · rw [htime]
    dsimp only
    rw [flushChecked_eq hrecv]
    exact ⟨rfl, flush_bounded io.send hrecv⟩
  · rw [htime]
    obtain ⟨hchecked, hbounded⟩ := (cb t (s.receive io.recv).2.2).runChecked_eq hrecv
    dsimp only
    rw [hchecked, Option.bind_some, flushChecked_eq hbounded]
    exact ⟨rfl, flush_bounded io.send hbounded⟩

theorem Use.runChecked_eq (u : Use) (hs : s.Bounded) :
    u.runChecked s = some (u.run s) ∧ (u.run s).2.Bounded := by
  obtain ⟨op, cb⟩ := u
  cases op with
  | send data =>
    unfold Use.runChecked
    dsimp only
    rw [sendChecked_eq hs data]
    exact ⟨rfl, send_bounded hs data⟩
  | sendAndRecv io => exact sendAndRecvChecked_eq hs io cb
  | destroy => exact ⟨rfl, Nat.zero_le _, Nat.zero_le _⟩
  | connect created => exact ⟨rfl, Nat.zero_le _, Nat.zero_le _⟩

end Soundness

/-- No access of a socket leaves its buffers and no index computation wraps, in
any sequence of calls with any kernel results and any permitted callbacks. -/
theorem run_stays_in_range (sendBuffer rcvBuffer : ℕ → Byte) (uses : List Use) :
    feedChecked Use.runChecked uses (Socket.new sendBuffer rcvBuffer) =
        some (feed Use.run uses (Socket.new sendBuffer rcvBuffer)) ∧
      (feed Use.run uses (Socket.new sendBuffer rcvBuffer)).2.Bounded := by
  have hnew : (Socket.new sendBuffer rcvBuffer).Bounded := ⟨Nat.zero_le _, Nat.zero_le _⟩
  have hstep (u : Use) (s : Socket) (hs : s.Bounded) : (u.run s).2.Bounded :=
    (u.runChecked_eq hs).2
  exact ⟨feedChecked_eq Socket.Bounded hstep (fun u s hs ↦ (u.runChecked_eq hs).1) hnew uses,
    feed_invariant Socket.Bounded hstep hnew uses⟩

end LowLatency.TCPSocket
