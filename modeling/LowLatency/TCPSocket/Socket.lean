import LowLatency.Library.ByteBuffer
import LowLatency.Library.Words
import LowLatency.SocketUtils.Calls

namespace LowLatency.TCPSocket

open Library.Words Library.ByteBuffer SocketUtils

def tcpBufferSize : ℕ := 64 * 1024

abbrev Nanos := ℤ

def nanosToMicros : Nanos := 1000

def nanosToSecs : Nanos := 1000 * 1000 * 1000

/-- The state of a `TCPSocket`. The buffers have stale bytes behind their valid
indices, as the allocated arrays do. -/
structure Socket where
  fd : ℤ
  sendBuffer : ℕ → Byte
  nextSendValidIndex : ℕ
  rcvBuffer : ℕ → Byte
  nextRcvValidIndex : ℕ
  sendDisconnected : Bool
  recvDisconnected : Bool

inductive ControlMessage
  | timestamp (sec usec : ℤ)
  | other

/-- The loop over the control messages: the first `SCM_TIMESTAMP`, or zero. -/
def kernelTime : List ControlMessage → Nanos
  | [] => 0
  | .timestamp sec usec :: _ => sec * nanosToSecs + usec * nanosToMicros
  | .other :: rest => kernelTime rest

/-- What the kernel offers to one `recvmsg`. It delivers no more than `iov_len`
of the bytes; no bytes means that it returns 0. -/
inductive RecvResult
  | received (bytes : List Byte) (control : List ControlMessage)
  | error (e : Errno)

/-- What the kernel is ready to do for one `::send`. It accepts no more than it
is offered. -/
inductive SendResult
  | sent (count : ℕ)
  | error (e : Errno)

inductive Data
  | null (len : ℕ)
  | bytes (bs : List Byte)

def Data.len : Data → ℕ
  | .null len => len
  | .bytes bs => bs.length

def Data.contents : Data → List Byte
  | .null _ => []
  | .bytes bs => bs

structure SendCall where
  offered : List Byte
  accepted : List Byte
  failed : Option Errno
  deriving DecidableEq

structure Flushed where
  totalSent : ℕ
  fatal : Bool
  calls : List SendCall

/-- The flush loop. Each round that goes on accepts at least one byte, so
`next_send_valid_index_` is enough fuel. -/
def flushLoop (buffer : ℕ → Byte) (next : ℕ) (kernel : ℕ → SendResult) : ℕ → ℕ → ℕ → Flushed
  | 0, _, totalSent => ⟨totalSent, false, []⟩
  | fuel + 1, round, totalSent =>
    if totalSent < next then
      let remaining := sizeSub next totalSent
      let offered := slice buffer totalSent remaining
      match kernel round with
      | .error e => ⟨totalSent, !wouldBlock e, [⟨offered, [], some e⟩]⟩
      | .sent count =>
        let sent := min count remaining
        if sent = 0 then ⟨totalSent, false, [⟨offered, [], none⟩]⟩
        else
          let rest := flushLoop buffer next kernel fuel (round + 1) (sizeAdd totalSent sent)
          { rest with calls := ⟨offered, offered.take sent, none⟩ :: rest.calls }
    else ⟨totalSent, false, []⟩

structure RecvCall where
  iovLen : ℕ
  bytes : List Byte
  failed : Option Errno
  deriving DecidableEq

structure Record where
  returned : Bool
  recvmsg : Option RecvCall
  callback : Option Nanos
  sends : List SendCall
  deriving DecidableEq

def Record.none : Record := ⟨false, .none, .none, []⟩

structure Io where
  recv : RecvResult
  send : ℕ → SendResult

namespace Socket

def new (sendBuffer rcvBuffer : ℕ → Byte) : Socket :=
  ⟨-1, sendBuffer, 0, rcvBuffer, 0, false, false⟩

/-- `destroy()`, apart from the `::close` of an open `fd_`. -/
def destroy (s : Socket) : Socket :=
  { s with
    fd := if 0 ≤ s.fd then -1 else s.fd
    nextSendValidIndex := 0
    nextRcvValidIndex := 0
    sendDisconnected := false
    recvDisconnected := false }

def connect (created : ℤ) (s : Socket) : Socket := { s.destroy with fd := created }

def send (data : Data) (s : Socket) : Bool × Socket :=
  if data.len = 0 then (true, s)
  else
    match data with
    | .null _ => (false, s)
    | .bytes bs =>
      if s.nextSendValidIndex > tcpBufferSize ∨
          bs.length > sizeSub tcpBufferSize s.nextSendValidIndex then (false, s)
      else (true, { s with
        sendBuffer := copyIn s.sendBuffer s.nextSendValidIndex bs
        nextSendValidIndex := sizeAdd s.nextSendValidIndex bs.length })

def iovLen (s : Socket) : ℕ := sizeSub tcpBufferSize s.nextRcvValidIndex

/-- The `recvmsg` of `sendAndRecv()` and the branches on its result, up to the
callback. The callback's timestamp is returned if it has to run. -/
def receive (kernel : RecvResult) (s : Socket) : RecvCall × Option Nanos × Socket :=
  match kernel with
  | .received bytes control =>
    let received := bytes.take s.iovLen
    let call := ⟨s.iovLen, received, none⟩
    if 0 < received.length then
      (call, some (kernelTime control), { s with
        rcvBuffer := copyIn s.rcvBuffer s.nextRcvValidIndex received
        nextRcvValidIndex := sizeAdd s.nextRcvValidIndex received.length })
    else (call, none, { s with recvDisconnected := true })
  | .error e =>
    (⟨s.iovLen, [], some e⟩, none, if wouldBlock e then s else { s with recvDisconnected := true })

def flush (kernel : ℕ → SendResult) (s : Socket) : List SendCall × Socket :=
  let out := flushLoop s.sendBuffer s.nextSendValidIndex kernel s.nextSendValidIndex 0 0
  let s := if out.fatal then { s with sendDisconnected := true } else s
  if 0 < out.totalSent then
    let unsent := sizeSub s.nextSendValidIndex out.totalSent
    (out.calls, { s with
      sendBuffer :=
        if 0 < unsent then move s.sendBuffer 0 out.totalSent unsent else s.sendBuffer
      nextSendValidIndex := unsent })
  else (out.calls, s)

end Socket

/-- Where a socket lives inside a larger world: what `this` gives access to. -/
structure Place (W : Type*) where
  get : W → Socket
  set : Socket → W → W
  get_set : ∀ s w, get (set s w) = s

/-- `sendAndRecv()` of the socket at `this`. The receive callback is user code
that may change anything in the world. -/
def sendAndRecv {W : Type*} (this : Place W) (io : Io) (recvCallback : Nanos → W → W) (w : W) :
    Record × W :=
  let s := this.get w
  if s.fd < 0 then (.none, w)
  else if s.nextRcvValidIndex ≥ tcpBufferSize then
    (.none, this.set { s with recvDisconnected := true } w)
  else
    let (call, time, s) := s.receive io.recv
    let w := this.set s w
    let w := match time with
      | some t => recvCallback t w
      | none => w
    let (sends, s) := (this.get w).flush io.send
    (⟨time.isSome, some call, time, sends⟩, this.set s w)

end LowLatency.TCPSocket
