import LowLatency.Library.Runs
import LowLatency.TCPSocket.Buffers

namespace LowLatency.TCPSocket

open Library.Words Library.ByteBuffer Library.Runs

inductive Op
  | send (data : Data)
  | sendAndRecv (io : Io)
  | destroy
  | connect (created : ℤ)

/-- One call on the socket at `this`. What `send()` returns stands in an
otherwise empty record. -/
def call {W : Type*} (this : Place W) (cb : Nanos → W → W) : Op → W → Record × W
  | .send data, w =>
    ({ Record.none with returned := ((this.get w).send data).1 },
      this.set ((this.get w).send data).2 w)
  | .sendAndRecv io, w => sendAndRecv this io cb w
  | .destroy, w => (.none, this.set (this.get w).destroy w)
  | .connect created, w => (.none, this.set ((this.get w).connect created) w)

/-- What a receive callback may look at: `fd_`, `rx_time` and the valid prefix
of `rcv_buffer_`. -/
structure Input where
  fd : ℤ
  rxTime : Nanos
  valid : List Byte

/-- What a callback does once it has its input. It goes on after a `send()`
knowing whether the data was queued. -/
inductive Script (U : Type)
  | done (user : U)
  | keep (bytes : List Byte) (next : Script U)
  | send (data : Data) (next : Bool → Script U)
  | mark (sendDisconnected recvDisconnected : Bool) (next : Script U)
  | destroy (next : Script U)
  | connect (created : ℤ) (next : Script U)

namespace Script

variable {U : Type}

def run : Script U → Socket → U × Socket
  | done user, s => (user, s)
  | keep bytes next, s =>
    next.run { s with rcvBuffer := copyIn s.rcvBuffer 0 bytes, nextRcvValidIndex := bytes.length }
  | send data next, s => (next (s.send data).1).run (s.send data).2
  | mark sendDisconnected recvDisconnected next, s =>
    next.run { s with sendDisconnected, recvDisconnected }
  | destroy next, s => next.run s.destroy
  | connect created next, s => next.run (s.connect created)

end Script

structure Host (U : Type) where
  socket : Socket
  user : U
  inputs : List Input

namespace Host

variable {U : Type}

def place : Place (Host U) where
  get h := h.socket
  set s h := { h with socket := s }
  get_set _ _ := rfl

def callback (script : U → Input → Script U) (t : Nanos) (h : Host U) : Host U :=
  let input := ⟨h.socket.fd, t, h.socket.unread⟩
  let (user, s) := (script h.user input).run h.socket
  ⟨s, user, h.inputs ++ [input]⟩

/-- All that a call shows: what it returned, the system calls it made, the flags
it left and what the callback has seen. -/
structure Shown where
  record : Record
  fd : ℤ
  sendDisconnected : Bool
  recvDisconnected : Bool
  inputs : List Input

def step (script : U → Input → Script U) (op : Op) (h : Host U) : Shown × Host U :=
  let (record, h) := call place (callback script) op h
  (⟨record, h.socket.fd, h.socket.sendDisconnected, h.socket.recvDisconnected, h.inputs⟩, h)

end Host

/-- Sockets that differ at most in the stale bytes of their buffers. -/
structure Similar (s s' : Socket) : Prop where
  fd : s.fd = s'.fd
  sendIndex : s.nextSendValidIndex = s'.nextSendValidIndex
  sendBound : s.nextSendValidIndex ≤ tcpBufferSize
  sendBytes : ∀ i < s.nextSendValidIndex, s.sendBuffer i = s'.sendBuffer i
  rcvIndex : s.nextRcvValidIndex = s'.nextRcvValidIndex
  rcvBytes : ∀ i < s.nextRcvValidIndex, s.rcvBuffer i = s'.rcvBuffer i
  sendFlag : s.sendDisconnected = s'.sendDisconnected
  recvFlag : s.recvDisconnected = s'.recvDisconnected

namespace Similar

variable {s s' : Socket}

theorem connect (s s' : Socket) (created : ℤ) :
    Similar (s.connect created) (s'.connect created) where
  fd := rfl
  sendIndex := rfl
  sendBound := Nat.zero_le _
  sendBytes := nofun
  rcvIndex := rfl
  rcvBytes := nofun
  sendFlag := rfl
  recvFlag := rfl

theorem destroy (h : Similar s s') : Similar s.destroy s'.destroy where
  fd := by simp only [Socket.destroy, h.fd]
  sendIndex := rfl
  sendBound := Nat.zero_le _
  sendBytes := nofun
  rcvIndex := rfl
  rcvBytes := nofun
  sendFlag := rfl
  recvFlag := rfl

theorem unread (h : Similar s s') : s.unread = s'.unread := by
  rw [Socket.unread, Socket.unread, ← h.rcvIndex]
  apply slice_congr
  intro i hi
  rw [Nat.zero_add]
  exact h.rcvBytes i hi

theorem send (h : Similar s s') (data : Data) :
    (s.send data).1 = (s'.send data).1 ∧ Similar (s.send data).2 (s'.send data).2 := by
  unfold Socket.send
  split
  next => exact ⟨rfl, h⟩
  next =>
    cases data with
    | null len => exact ⟨rfl, h⟩
    | bytes bs =>
      dsimp only
      rw [← h.sendIndex]
      split
      next => exact ⟨rfl, h⟩
      next hroom =>
        have hbound := h.sendBound
        rw [sizeSub_eq hbound] at hroom
        have hsum : s.nextSendValidIndex + bs.length ≤ tcpBufferSize := by omega
        rw [sizeAdd_eq (Nat.lt_of_le_of_lt hsum tcpBufferSize_lt)]
        exact ⟨rfl, { h with
          sendIndex := rfl
          sendBound := hsum
          sendBytes := copyIn_congr h.sendBytes bs }⟩

theorem receive (h : Similar s s') (hroom : s.nextRcvValidIndex < tcpBufferSize)
    (kernel : RecvResult) :
    (s.receive kernel).1 = (s'.receive kernel).1 ∧
      (s.receive kernel).2.1 = (s'.receive kernel).2.1 ∧
      Similar (s.receive kernel).2.2 (s'.receive kernel).2.2 := by
  have hiov : s.iovLen = s'.iovLen := by rw [Socket.iovLen, Socket.iovLen, h.rcvIndex]
  unfold Socket.receive
  rw [← hiov, ← h.rcvIndex]
  cases kernel with
  | received bytes control =>
    dsimp only
    have hlen : (bytes.take s.iovLen).length ≤ tcpBufferSize - s.nextRcvValidIndex := by
      rw [Socket.iovLen, sizeSub_eq hroom.le]
      exact List.length_take_le _ _
    have hsum : s.nextRcvValidIndex + (bytes.take s.iovLen).length < sizeRange := by
      have hsize := tcpBufferSize_lt
      omega
    split
    next =>
      rw [sizeAdd_eq hsum]
      exact ⟨rfl, rfl, { h with
        rcvIndex := rfl
        rcvBytes := copyIn_congr h.rcvBytes _ }⟩
    next => exact ⟨rfl, rfl, { h with rcvIndex := rfl, recvFlag := rfl }⟩
  | error e =>
    dsimp only
    split
    next => exact ⟨rfl, rfl, h⟩
    next => exact ⟨rfl, rfl, { h with rcvIndex := rfl, recvFlag := rfl }⟩

theorem flushLoop_congr {buffer buffer' : ℕ → Byte} {next : ℕ}
    (hb : ∀ i < next, buffer i = buffer' i) (hn : next < sizeRange) (kernel : ℕ → SendResult)
    (fuel round totalSent : ℕ) (ht : totalSent ≤ next) :
    flushLoop buffer next kernel fuel round totalSent =
      flushLoop buffer' next kernel fuel round totalSent := by
  induction fuel generalizing round totalSent with
  | zero => rfl
  | succ fuel ih =>
    have hoffered : slice buffer totalSent (next - totalSent) =
        slice buffer' totalSent (next - totalSent) :=
      slice_congr fun i hi ↦ hb _ (by omega)
    simp only [flushLoop, sizeSub_eq ht, hoffered]
    split
    next hlt =>
      cases kernel round with
      | error e => rfl
      | sent count =>
        dsimp only
        split
        next => rfl
        next =>
          have hle : totalSent + min count (next - totalSent) ≤ next := by omega
          rw [sizeAdd_eq (Nat.lt_of_le_of_lt hle hn), ih (round + 1) _ hle]
    next => rfl

theorem flush (h : Similar s s') (kernel : ℕ → SendResult) :
    (s.flush kernel).1 = (s'.flush kernel).1 ∧
      Similar (s.flush kernel).2 (s'.flush kernel).2 := by
  have hn := Nat.lt_of_le_of_lt h.sendBound tcpBufferSize_lt
  have hloop := flushLoop_congr h.sendBytes hn kernel s.nextSendValidIndex 0 0 (Nat.zero_le _)
  obtain ⟨out, hout⟩ : ∃ out, flushLoop s.sendBuffer s.nextSendValidIndex kernel
      s.nextSendValidIndex 0 0 = out := ⟨_, rfl⟩
  have hout' := hloop.symm.trans hout
  obtain ⟨-, hle, -⟩ := flushLoop_spec s.sendBuffer kernel hn _ 0 0 (Nat.zero_le _) out hout
  obtain ⟨hcalls, hflag, hindex, hpending⟩ := flush_fields kernel s out hout hle
  rw [h.sendIndex] at hout' hle
  obtain ⟨hcalls', hflag', hindex', hpending'⟩ := flush_fields kernel s' out hout' hle
  rw [← h.sendIndex] at hindex' hpending'
  have hframe := flush_frame kernel s
  have hframe' := flush_frame kernel s'
  refine ⟨hcalls.trans hcalls'.symm, ⟨?_, hindex.trans hindex'.symm, ?_, ?_, ?_, ?_, ?_, ?_⟩⟩
  · rw [hframe.fd, hframe'.fd, h.fd]
  · rw [hindex]
    exact Nat.le_trans (Nat.sub_le _ _) h.sendBound
  · apply eq_of_slice_eq
    have hsame : (s.flush kernel).2.pending = (s'.flush kernel).2.pending := by
      rw [hpending, hpending']
      exact slice_congr fun i hi ↦ h.sendBytes _ (by omega)
    rwa [Socket.pending, Socket.pending, hindex', ← hindex] at hsame
  · rw [hframe.index, hframe'.index, h.rcvIndex]
  · rw [hframe.index, hframe.buffer, hframe'.buffer]
    exact h.rcvBytes
  · rw [hflag, hflag', h.sendFlag]
  · rw [hframe.flag, hframe'.flag, h.recvFlag]

end Similar

section Bisimulation

variable {U : Type}

theorem Script.run_similar (p : Script U) {s s' : Socket} (h : Similar s s') :
    (p.run s).1 = (p.run s').1 ∧ Similar (p.run s).2 (p.run s').2 := by
  induction p generalizing s s' with
  | done user => exact ⟨rfl, h⟩
  | keep bytes next ih =>
    refine ih { h with rcvIndex := rfl, rcvBytes := ?_ }
    have hnone : ∀ i < 0, s.rcvBuffer i = s'.rcvBuffer i := nofun
    have hcopy := copyIn_congr hnone bytes
    rwa [Nat.zero_add] at hcopy
  | send data next ih =>
    obtain ⟨hok, hs⟩ := h.send data
    rw [Script.run, Script.run, hok]
    exact ih _ hs
  | mark sendDisconnected recvDisconnected next ih =>
    exact ih { h with sendFlag := rfl, recvFlag := rfl }
  | destroy next ih => exact ih h.destroy
  | connect created next ih => exact ih (.connect s s' created)

structure Host.Alike (h h' : Host U) : Prop where
  socket : Similar h.socket h'.socket
  user : h.user = h'.user
  inputs : h.inputs = h'.inputs

variable {h h' : Host U}

theorem Host.Alike.callback (ha : h.Alike h') (script : U → Input → Script U) (t : Nanos) :
    (Host.callback script t h).Alike (Host.callback script t h') := by
  have hrun := (script h'.user ⟨h'.socket.fd, t, h'.socket.unread⟩).run_similar ha.socket
  unfold Host.callback
  rw [ha.socket.fd, ha.socket.unread, ha.user, ha.inputs]
  exact ⟨hrun.2, hrun.1, rfl⟩

theorem Host.Alike.sendAndRecv (ha : h.Alike h') (script : U → Input → Script U) (io : Io) :
    (sendAndRecv Host.place io (Host.callback script) h).1 =
        (sendAndRecv Host.place io (Host.callback script) h').1 ∧
      (sendAndRecv Host.place io (Host.callback script) h).2.Alike
        (sendAndRecv Host.place io (Host.callback script) h').2 := by
  by_cases hfd : (Host.place.get h).fd < 0
  · rw [sendAndRecv_closed Host.place io _ h hfd,
      sendAndRecv_closed Host.place io _ h' (ha.socket.fd ▸ hfd)]
    exact ⟨rfl, ha⟩
  by_cases hfull : (Host.place.get h).nextRcvValidIndex ≥ tcpBufferSize
  · rw [sendAndRecv_full Host.place io _ h hfd hfull,
      sendAndRecv_full Host.place io _ h' (ha.socket.fd ▸ hfd) (ha.socket.rcvIndex ▸ hfull)]
    exact ⟨rfl, { ha with socket := { ha.socket with recvFlag := rfl } }⟩
  obtain ⟨hcall, htime, hs⟩ := ha.socket.receive (Nat.lt_of_not_le hfull) io.recv
  have hset : (Host.place.set (h.socket.receive io.recv).2.2 h).Alike
      (Host.place.set (h'.socket.receive io.recv).2.2 h') := { ha with socket := hs }
  obtain ⟨w, hw, hrun⟩ := sendAndRecv_open Host.place io (Host.callback script) h hfd hfull
  obtain ⟨w', hw', hrun'⟩ := sendAndRecv_open Host.place io (Host.callback script) h'
    (ha.socket.fd ▸ hfd) (ha.socket.rcvIndex ▸ hfull)
  have hmid : w.Alike w' := by
    rcases hw with ⟨hnone, rfl⟩ | ⟨t, hsome, rfl⟩
    · rcases hw' with ⟨-, rfl⟩ | ⟨t', hsome', -⟩
      · exact hset
      · cases (htime.symm.trans hnone).symm.trans hsome'
    · rcases hw' with ⟨hnone', -⟩ | ⟨t', hsome', rfl⟩
      · cases (htime.symm.trans hsome).symm.trans hnone'
      · cases (htime.symm.trans hsome).symm.trans hsome'
        exact hset.callback script t
  obtain ⟨hsends, hflushed⟩ := hmid.socket.flush io.send
  rw [hrun, hrun']
  refine ⟨?_, { hmid with socket := hflushed }⟩
  show Record.mk (h.socket.receive io.recv).2.1.isSome (some (h.socket.receive io.recv).1)
    (h.socket.receive io.recv).2.1 (w.socket.flush io.send).1 = _
  rw [hcall, htime, hsends]
  rfl

theorem Host.Alike.call (ha : h.Alike h') (script : U → Input → Script U) (op : Op) :
    (call Host.place (Host.callback script) op h).1 =
        (call Host.place (Host.callback script) op h').1 ∧
      (call Host.place (Host.callback script) op h).2.Alike
        (call Host.place (Host.callback script) op h').2 := by
  cases op with
  | send data =>
    obtain ⟨hok, hs⟩ := ha.socket.send data
    refine ⟨?_, { ha with socket := hs }⟩
    show { Record.none with returned := (h.socket.send data).1 } = _
    rw [hok]
    rfl
  | sendAndRecv io => exact ha.sendAndRecv script io
  | destroy => exact ⟨rfl, { ha with socket := ha.socket.destroy }⟩
  | connect created => exact ⟨rfl, { ha with socket := .connect _ _ created }⟩

theorem Host.Alike.step (ha : h.Alike h') (script : U → Input → Script U) (op : Op) :
    (Host.step script op h).1 = (Host.step script op h').1 ∧
      (Host.step script op h).2.Alike (Host.step script op h').2 := by
  obtain ⟨hrecord, hnext⟩ := ha.call script op
  refine ⟨?_, hnext⟩
  unfold Host.step
  dsimp only
  rw [hrecord, hnext.socket.fd, hnext.socket.sendFlag, hnext.socket.recvFlag, hnext.inputs]

end Bisimulation

/-- After any history, with any callbacks, a socket that is connected again
shows under all later calls what a new one with the same descriptor shows. -/
theorem reused_socket_like_new {U V : Type} (callback : Nanos → Host V → Host V)
    (history : List Op) (start : Host V) (created : ℤ) (sendBuffer rcvBuffer : ℕ → Byte)
    (script : U → Input → Script U) (user : U) (later : List Op) :
    (feed (Host.step script) later
        ⟨(feed (call Host.place callback) history start).2.socket.connect created, user, []⟩).1 =
      (feed (Host.step script) later
        ⟨(Socket.new sendBuffer rcvBuffer).connect created, user, []⟩).1 := by
  refine feed_bisim Host.Alike (fun op h h' ha ↦ ha.step script op) ?_ later
  exact ⟨.connect _ _ created, rfl, rfl⟩

end LowLatency.TCPSocket

