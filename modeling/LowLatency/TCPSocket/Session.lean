import LowLatency.TCPSocket.Buffers

namespace LowLatency.TCPSocket

open Library.Words Library.ByteBuffer SocketUtils

/-- What a `TCPSocket` stands for: a queue of bytes in each direction, without
buffers, indices and descriptors. -/
structure Session where
  isOpen : Bool
  outgoing : List Byte
  incoming : List Byte
  sendDisconnected : Bool
  recvDisconnected : Bool

namespace Session

def closed : Session := ⟨false, [], [], false, false⟩

def fresh : Session := { closed with isOpen := true }

def room (x : Session) : ℕ := tcpBufferSize - x.incoming.length

def send (data : Data) (x : Session) : Bool × Session :=
  match data with
  | .null len => (len = 0, x)
  | .bytes bs =>
    if x.outgoing.length + bs.length ≤ tcpBufferSize then
      (true, { x with outgoing := x.outgoing ++ bs })
    else (false, x)

def receive (kernel : RecvResult) (x : Session) : RecvCall × Option Nanos × Session :=
  match kernel with
  | .received bytes control =>
    if bytes.take x.room = [] then
      (⟨x.room, [], none⟩, none, { x with recvDisconnected := true })
    else (⟨x.room, bytes.take x.room, none⟩, some (kernelTime control),
      { x with incoming := x.incoming ++ bytes.take x.room })
  | .error e =>
    (⟨x.room, [], some e⟩, none, { x with recvDisconnected := x.recvDisconnected || !wouldBlock e })

/-- The whole queue is offered until nothing is left or the kernel takes
nothing: the calls, whether the last one failed for good, and the rest. -/
def drain (kernel : ℕ → SendResult) : ℕ → ℕ → List Byte → List SendCall × Bool × List Byte
  | 0, _, queue => ([], false, queue)
  | fuel + 1, round, queue =>
    if queue = [] then ([], false, [])
    else
      match kernel round with
      | .error e => ([⟨queue, [], some e⟩], !wouldBlock e, queue)
      | .sent count =>
        if count = 0 then ([⟨queue, [], none⟩], false, queue)
        else
          let rest := drain kernel fuel (round + 1) (queue.drop count)
          (⟨queue, queue.take count, none⟩ :: rest.1, rest.2)

def flush (kernel : ℕ → SendResult) (x : Session) : List SendCall × Session :=
  let out := drain kernel x.outgoing.length 0 x.outgoing
  (out.1, { x with
    outgoing := out.2.2
    sendDisconnected := x.sendDisconnected || out.2.1 })

/-- One exchange of a session with the kernel. `get` and `set` reach the session
inside a larger state, which the application may change when bytes have come. -/
def exchange {V : Type*} (get : V → Session) (set : Session → V → V) (io : Io)
    (recvCallback : Nanos → V → V) (v : V) : Record × V :=
  let x := get v
  if x.isOpen = false then (.none, v)
  else if tcpBufferSize ≤ x.incoming.length then (.none, set { x with recvDisconnected := true } v)
  else
    let (call, time, x) := x.receive io.recv
    let v := set x v
    let v := match time with
      | some t => recvCallback t v
      | none => v
    let (sends, x) := (get v).flush io.send
    (⟨time.isSome, some call, time, sends⟩, set x v)

end Session

namespace Socket

def session (s : Socket) : Session :=
  ⟨decide (0 ≤ s.fd), s.pending, s.unread, s.sendDisconnected, s.recvDisconnected⟩

variable {s : Socket}

@[simp] theorem pending_length (s : Socket) : s.pending.length = s.nextSendValidIndex :=
  slice_length ..

@[simp] theorem unread_length (s : Socket) : s.unread.length = s.nextRcvValidIndex :=
  slice_length ..

theorem session_destroy (s : Socket) : s.destroy.session = .closed := by
  have hfd : ¬ 0 ≤ s.destroy.fd := by
    simp only [destroy]
    split <;> omega
  simp only [session, hfd, decide_false]
  rfl

theorem session_connect (created : ℤ) (s : Socket) :
    (s.connect created).session = { Session.closed with isOpen := decide (0 ≤ created) } := rfl

theorem session_send (hle : s.nextSendValidIndex ≤ tcpBufferSize) (data : Data) :
    (s.send data).1 = (s.session.send data).1 ∧
      (s.send data).2.session = (s.session.send data).2 := by
  cases data with
  | null len =>
    rw [Socket.send, show (Data.null len).len = len from rfl]
    by_cases hzero : len = 0
    · rw [if_pos hzero]
      exact ⟨(decide_eq_true hzero).symm, rfl⟩
    · rw [if_neg hzero]
      exact ⟨(decide_eq_false hzero).symm, rfl⟩
  | bytes bs =>
    have hlen : s.session.outgoing.length = s.nextSendValidIndex := pending_length s
    rw [Session.send, hlen, Socket.send]
    by_cases hnil : bs = []
    · simp [hnil, hle, Data.len, session]
    rw [if_neg (by simpa [Data.len] using hnil), sizeSub_eq hle]
    by_cases hroom : s.nextSendValidIndex + bs.length ≤ tcpBufferSize
    · have hsum : sizeAdd s.nextSendValidIndex bs.length = s.nextSendValidIndex + bs.length :=
        sizeAdd_eq (Nat.lt_of_le_of_lt hroom tcpBufferSize_lt)
      rw [if_pos hroom, if_neg (by omega), hsum]
      refine ⟨rfl, ?_⟩
      simp only [session, pending, slice_append]
      rfl
    · rw [if_neg hroom, if_pos (by omega)]
      exact ⟨rfl, rfl⟩

theorem session_receive (hroom : s.nextRcvValidIndex < tcpBufferSize) (kernel : RecvResult) :
    (s.receive kernel).1 = (s.session.receive kernel).1 ∧
      (s.receive kernel).2.1 = (s.session.receive kernel).2.1 ∧
      (s.receive kernel).2.2.session = (s.session.receive kernel).2.2 := by
  have hlen : s.iovLen = s.session.room := by
    rw [iovLen, sizeSub_eq (Nat.le_of_lt hroom), Session.room, session, unread_length]
  unfold Socket.receive Session.receive
  rw [hlen]
  cases kernel with
  | received bytes control =>
    dsimp only
    by_cases hnil : bytes.take s.session.room = []
    · rw [if_pos hnil, hnil, if_neg (by simp)]
      exact ⟨rfl, rfl, rfl⟩
    · have hle : (bytes.take s.session.room).length ≤ tcpBufferSize - s.nextRcvValidIndex := by
        refine (List.length_take_le _ _).trans_eq ?_
        rw [Session.room, session, unread_length]
      have hsum : sizeAdd s.nextRcvValidIndex (bytes.take s.session.room).length =
          s.nextRcvValidIndex + (bytes.take s.session.room).length :=
        sizeAdd_eq (Nat.lt_of_le_of_lt (by omega) tcpBufferSize_lt)
      rw [if_neg hnil, if_pos (List.length_pos_iff.2 hnil), hsum]
      refine ⟨rfl, rfl, ?_⟩
      generalize bytes.take s.session.room = received
      simp only [session, unread, slice_append]
      rfl
  | error e =>
    dsimp only
    cases hw : wouldBlock e <;> simp [session, pending, unread]

theorem drain_flushLoop (buffer : ℕ → Byte) (kernel : ℕ → SendResult) {next : ℕ}
    (hn : next < sizeRange) (fuel round totalSent : ℕ) (ht : totalSent ≤ next) (out : Flushed)
    (hout : flushLoop buffer next kernel fuel round totalSent = out) :
    Session.drain kernel fuel round (slice buffer totalSent (next - totalSent)) =
      (out.calls, out.fatal, slice buffer out.totalSent (next - out.totalSent)) := by
  induction fuel generalizing round totalSent out with
  | zero =>
    subst hout
    rfl
  | succ fuel ih =>
    simp only [flushLoop, sizeSub_eq ht] at hout
    unfold Session.drain
    split at hout
    next hlt =>
      have hne : slice buffer totalSent (next - totalSent) ≠ [] := by
        apply List.ne_nil_of_length_pos
        rw [slice_length]
        omega
      rw [if_neg hne]
      cases hk : kernel round with
      | error e =>
        rw [hk] at hout
        subst hout
        rfl
      | sent count =>
        simp only [hk] at hout
        dsimp only
        split at hout
        next hsent =>
          subst hout
          rw [if_pos (by omega)]
        next hsent =>
          have hle : totalSent + min count (next - totalSent) ≤ next := by omega
          rw [sizeAdd_eq (Nat.lt_of_le_of_lt hle hn)] at hout
          have hrest := ih (round + 1) _ hle _ rfl
          have htail : (slice buffer totalSent (next - totalSent)).drop count =
              slice buffer (totalSent + min count (next - totalSent))
                (next - (totalSent + min count (next - totalSent))) := by
            rw [List.drop_eq_drop_min, slice_length,
              slice_split buffer totalSent (Nat.min_le_right count (next - totalSent)),
              List.drop_left' (slice_length ..), Nat.sub_sub]
          subst hout
          rw [if_neg (by omega), htail, hrest]
          dsimp only
          rw [List.take_eq_take_min (i := count), slice_length]
    next hge =>
      subst hout
      rw [show next - totalSent = 0 by omega]
      rfl

theorem session_flush (hle : s.nextSendValidIndex ≤ tcpBufferSize) (kernel : ℕ → SendResult) :
    (s.flush kernel).1 = (s.session.flush kernel).1 ∧
      (s.flush kernel).2.session = (s.session.flush kernel).2 := by
  have hn := Nat.lt_of_le_of_lt hle tcpBufferSize_lt
  generalize hloop : flushLoop s.sendBuffer s.nextSendValidIndex kernel s.nextSendValidIndex 0 0 =
    out
  obtain ⟨-, hsent, -⟩ := flushLoop_spec s.sendBuffer kernel hn _ 0 0 (Nat.zero_le _) out hloop
  have hdrain := drain_flushLoop s.sendBuffer kernel hn _ 0 0 (Nat.zero_le _) out hloop
  obtain ⟨hcalls, hflag, -, hpending⟩ := flush_fields kernel s out hloop hsent
  have hout : Session.drain kernel s.session.outgoing.length 0 s.session.outgoing =
      ((s.flush kernel).1, out.fatal, (s.flush kernel).2.pending) := by
    rw [show s.session.outgoing.length = s.nextSendValidIndex from pending_length s, hcalls,
      hpending]
    exact hdrain
  have hframe := flush_frame kernel s
  rw [Session.flush, hout]
  refine ⟨rfl, ?_⟩
  rw [session, hflag, hframe.unread, hframe.fd, hframe.flag]
  rfl

end Socket

section Exchange

variable {W V : Type*} {w : W} {v : V}

/-- `sendAndRecv()` on buffers and indices is an exchange on byte queues, in two
worlds that agree on the session at `this`, if the callbacks keep them so. -/
theorem sendAndRecv_exchange (this : Place W) (get : V → Session) (set : Session → V → V) (io : Io)
    (cb : Nanos → W → W) (cb' : Nanos → V → V) (R : W → V → Prop)
    (hget : ∀ w v, R w v →
      (this.get w).nextSendValidIndex ≤ tcpBufferSize ∧ (this.get w).session = get v)
    (hset : ∀ w v x, R w v → x.fd = (this.get w).fd → x.nextSendValidIndex ≤ tcpBufferSize →
      R (this.set x w) (set x.session v))
    (hcb : ∀ time w v, R w v → R (cb time w) (cb' time v)) (h : R w v) :
    (sendAndRecv this io cb w).1 = (Session.exchange get set io cb' v).1 ∧
      R (sendAndRecv this io cb w).2 (Session.exchange get set io cb' v).2 := by
  have hflush : ∀ w v, R w v → ((this.get w).flush io.send).1 = ((get v).flush io.send).1 ∧
      R (this.set ((this.get w).flush io.send).2 w) (set ((get v).flush io.send).2 v) := by
    intro w v h
    obtain ⟨hle, hs⟩ := hget w v h
    obtain ⟨hcalls, hsession⟩ := Socket.session_flush hle io.send
    rw [← hs, ← hsession]
    exact ⟨hcalls, hset _ _ _ h (flush_frame io.send _).fd
      ((flush_stalls io.send hle).2.1.trans hle)⟩
  obtain ⟨hle, hs⟩ := hget w v h
  unfold Session.exchange
  rw [← hs]
  by_cases hfd : (this.get w).fd < 0
  · have hclosed : (this.get w).session.isOpen = false := by
      simpa [Socket.session] using hfd
    rw [sendAndRecv_closed this io cb w hfd, if_pos hclosed]
    exact ⟨rfl, h⟩
  have hopen : ¬ (this.get w).session.isOpen = false := by
    simpa [Socket.session] using hfd
  have hlen : (this.get w).session.incoming.length = (this.get w).nextRcvValidIndex :=
    Socket.unread_length _
  rw [if_neg hopen, hlen]
  by_cases hfull : (this.get w).nextRcvValidIndex ≥ tcpBufferSize
  · rw [sendAndRecv_full this io cb w hfd hfull, if_pos hfull]
    exact ⟨rfl, hset _ _ _ h rfl hle⟩
  rw [if_neg hfull]
  obtain ⟨hcall, htime, hreceived⟩ := Socket.session_receive (Nat.lt_of_not_le hfull) io.recv
  obtain ⟨hsame, -, hindex, -⟩ := receive_frame (this.get w) io.recv
  have hmid := hset _ _ _ h hsame (hindex ▸ hle)
  rw [hreceived] at hmid
  unfold sendAndRecv
  rw [if_neg hfd, if_neg hfull]
  dsimp only
  rw [hcall, htime]
  cases ((this.get w).session.receive io.recv).2.1 with
  | none =>
    obtain ⟨hsends, hr⟩ := hflush _ _ hmid
    exact ⟨by rw [hsends], hr⟩
  | some time =>
    obtain ⟨hsends, hr⟩ := hflush _ _ (hcb time _ _ hmid)
    exact ⟨by rw [hsends], hr⟩

end Exchange

end LowLatency.TCPSocket
