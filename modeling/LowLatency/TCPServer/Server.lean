import LowLatency.TCPSocket.Socket
import Mathlib.Logic.Function.Basic

namespace LowLatency.TCPServer

open Library.Words SocketUtils TCPSocket Function

def maxEpollEvents : ℕ := 1024

/-- A `TCPSocket*`: null, `&listener_socket_`, or an address that `new` returned. -/
inductive Ptr
  | null
  | listener
  | client (address : ℕ)
  deriving DecidableEq

structure Registration where
  epfd : ℤ
  fd : ℤ
  ptr : Ptr
  deriving DecidableEq

structure EpollEvent where
  ptr : Ptr
  err : Bool
  hup : Bool
  readable : Bool
  writable : Bool

inductive SysCall
  | epollCreate
  | createSocket
  | epollCtl
  | epollWait
  | accept
  | configure
  | close (fd : ℤ)
  deriving DecidableEq

/-- What the server does, as far as the properties of its runs speak of it. -/
inductive Event
  | system (call : SysCall)
  | destroyed
  /-- `poll()` has taken and cleared `disconnected_sockets_`. -/
  | polled
  | reported (p : Ptr)
  /-- `EPOLLOUT` without `EPOLLIN` was reported for the listener. -/
  | listenerWritable
  | accepted (p : Ptr)
  | deleted (p : Ptr)
  | recvCallback (p : Ptr)
  | served (p : Ptr) (record : Record) (disconnected : Bool)
  | recvFinished
  deriving DecidableEq

/-- The members of `TCPServer`, the memory that its pointers reach, and the
descriptors and registrations that the kernel keeps for it. `fault` records a
use or second delete of a deleted socket, `badClose` a close of a descriptor
that was not open. -/
structure Server where
  efd : ℤ
  sockets : List Ptr
  receiveSockets : List Ptr
  sendSockets : List Ptr
  disconnectedSockets : List Ptr
  memory : Ptr → Socket
  allocated : List ℕ
  openFds : List ℤ
  registered : List Registration
  fault : Bool
  badClose : Bool
  log : List Event

/-- What a callback may do with a client, besides reading it. `consume` leaves
the receive side as the callback wants it. -/
inductive SocketOp
  | consume (rcvBuffer : ℕ → Byte) (nextRcvValidIndex : ℕ)
  | send (data : Data)
  | destroy
  | connect (created : Option ℕ)

/-- The outcome of one successful `accept` and of the calls that follow it. The
numbers are proposals: the kernel and the allocator return something unused. -/
structure Accepted where
  fd : ℕ
  fcntl : Fcntl
  setsockopt : Bool
  address : ℕ
  sendBuffer : ℕ → Byte
  rcvBuffer : ℕ → Byte
  epollCtl : Bool

structure ListenEnv where
  epollCreate : Option ℕ
  createSocket : Option ℕ
  epollCtl : Bool

/-- `wait` is `none` when `epoll_wait` fails; `accepts` are the successes before
the `accept` that ends the loop with the error `ended`. -/
structure PollEnv where
  epollCtl : Ptr → Bool
  wait : Option (List EpollEvent)
  accepts : List Accepted
  ended : Errno

structure RoundEnv where
  io : Ptr → Io
  callback : Ptr → List (ℕ × SocketOp)
  finished : List (ℕ × SocketOp)

def unused (used : List ℕ) (hint : ℕ) : ℕ := if hint ∈ used then used.foldr max 0 + 1 else hint

def addUnique (sockets : List Ptr) (p : Ptr) : List Ptr :=
  if p ∈ sockets then sockets else sockets ++ [p]

def removeSocket (p : Ptr) (container : List Ptr) : List Ptr := container.filter (· ≠ p)

namespace Server

def new (memory : Ptr → Socket) : Server where
  efd := -1
  sockets := []
  receiveSockets := []
  sendSockets := []
  disconnectedSockets := []
  memory := update memory .listener
    (Socket.new (memory .listener).sendBuffer (memory .listener).rcvBuffer)
  allocated := []
  openFds := []
  registered := []
  fault := false
  badClose := false
  log := []

def emit (e : Event) (s : Server) : Server := { s with log := s.log ++ [e] }

def live (s : Server) : Ptr → Bool
  | .null => false
  | .listener => true
  | .client address => address ∈ s.allocated

def touch (p : Ptr) (s : Server) : Server := { s with fault := s.fault || !s.live p }

def place (p : Ptr) : Place Server where
  get s := s.memory p
  set socket s := { s with memory := update s.memory p socket }
  get_set socket s := update_self p socket s.memory

def newFd (s : Server) (hint : ℕ) : ℤ := unused (s.openFds.map Int.toNat) hint

def opened (fd : ℤ) (s : Server) : Server := { s with openFds := fd :: s.openFds }

/-- `::close`. It also takes the descriptor out of every interest list. -/
def close (fd : ℤ) (s : Server) : Server :=
  { s.emit (.system (.close fd)) with
    openFds := s.openFds.filter (· ≠ fd)
    registered := s.registered.filter fun r ↦ r.epfd ≠ fd ∧ r.fd ≠ fd
    badClose := s.badClose || fd ∉ s.openFds }

def destroySocket (p : Ptr) (s : Server) : Server :=
  let s := s.touch p
  let s := if 0 ≤ (s.memory p).fd then s.close (s.memory p).fd else s
  { s with memory := update s.memory p (s.memory p).destroy }

def connectSocket (p : Ptr) (created : Option ℕ) (s : Server) : Server :=
  let s := (s.destroySocket p).emit (.system .createSocket)
  match created with
  | none => { s with memory := update s.memory p ((s.memory p).connect (-1)) }
  | some hint =>
    let fd := s.newFd hint
    { s.opened fd with memory := update s.memory p ((s.memory p).connect fd) }

def deleteSocket (p : Ptr) (s : Server) : Server :=
  let s := (s.destroySocket p).emit (.deleted p)
  match p with
  | .client address => { s with allocated := s.allocated.filter (· ≠ address) }
  | _ => { s with fault := true }

def epollAdd (ok : Bool) (p : Ptr) (s : Server) : Bool × Server :=
  if s.efd < 0 ∨ p = .null ∨ (s.memory p).fd < 0 then (false, s)
  else
    let s := (s.touch p).emit (.system .epollCtl)
    if ok then (true, { s with registered := s.registered ++ [⟨s.efd, (s.memory p).fd, p⟩] })
    else (false, s)

def epollDel (ok : Bool) (p : Ptr) (s : Server) : Bool × Server :=
  if s.efd < 0 ∨ p = .null ∨ (s.memory p).fd < 0 then (false, s)
  else
    let s := (s.touch p).emit (.system .epollCtl)
    if ok then
      (true, { s with registered := s.registered.filter fun r ↦
        ¬ (r.epfd = s.efd ∧ r.fd = (s.memory p).fd) })
    else (false, s)

def removeFromLists (p : Ptr) (s : Server) : Server :=
  { s with
    sockets := removeSocket p s.sockets
    receiveSockets := removeSocket p s.receiveSockets
    sendSockets := removeSocket p s.sendSockets
    disconnectedSockets := removeSocket p s.disconnectedSockets }

def del (ok : Bool) (p : Ptr) (s : Server) : Server :=
  if p = .null ∨ p = .listener then s
  else ((s.epollDel ok p).2.removeFromLists p).deleteSocket p

def clearLists (s : Server) : Server :=
  { s with sockets := [], receiveSockets := [], sendSockets := [], disconnectedSockets := [] }

def closeEpoll (s : Server) : Server :=
  if 0 ≤ s.efd then { s.close s.efd with efd := -1 } else s

def destroy (s : Server) : Server :=
  let s := s.sockets.foldl (fun s p ↦ s.deleteSocket p) s
  (s.clearLists.emit .destroyed).closeEpoll.destroySocket .listener

def listen (env : ListenEnv) (s : Server) : Bool × Server :=
  let s := s.destroy.emit (.system .epollCreate)
  match env.epollCreate with
  | none => (false, { s with efd := -1 })
  | some hint =>
    let fd := s.newFd hint
    let s := { s.opened fd with efd := fd }
    let s := s.connectSocket .listener env.createSocket
    if (s.memory .listener).fd < (0 : ℤ) then (false, s.destroy)
    else
      let (ok, s) := s.epollAdd env.epollCtl .listener
      if ok then (true, s) else (false, s.destroy)

/-- One iteration of the event loop in `poll()`, with `have_new_connection`. -/
def dispatch (acc : Bool × Server) (event : EpollEvent) : Bool × Server :=
  let (haveNewConnection, s) := acc
  let p := event.ptr
  if p = .null then (haveNewConnection, s)
  else if event.err || event.hup then
    if p ≠ .listener then
      (haveNewConnection,
        { s.emit (.reported p) with disconnectedSockets := addUnique s.disconnectedSockets p })
    else (haveNewConnection, s)
  else if event.readable && p = .listener then (true, s)
  else
    let s := if event.readable then { s with receiveSockets := addUnique s.receiveSockets p } else s
    let s := if event.writable && p = .listener then s.emit .listenerWritable else s
    if event.writable then
      (haveNewConnection, { s with sendSockets := addUnique s.sendSockets p })
    else (haveNewConnection, s)

/-- The end of an iteration of the accept loop: a new socket is registered and
becomes a client, or is deleted. -/
def addClient (ok : Bool) (p : Ptr) (s : Server) : Server :=
  let (ok, s) := s.epollAdd ok p
  if !ok then s.deleteSocket p
  else { s.emit (.accepted p) with
    sockets := addUnique s.sockets p
    receiveSockets := addUnique s.receiveSockets p }

def acceptOne (s : Server) (a : Accepted) : Server :=
  let fd := s.newFd a.fd
  let s := ((s.opened fd).emit (.system .accept)).emit (.system .configure)
  if !(setNonBlocking a.fcntl).1 || !(setNoDelay a.setsockopt).1 then s.close fd
  else
    let address := unused s.allocated a.address
    let socket := { Socket.new a.sendBuffer a.rcvBuffer with fd := fd }
    let s := { s with
      memory := update s.memory (.client address) socket
      allocated := address :: s.allocated }
    s.addClient a.epollCtl (.client address)

/-- The accept loop. Both tests of `errno` leave it. -/
def acceptLoop (accepts : List Accepted) (ended : Errno) (s : Server) : Server :=
  let s := (accepts.foldl acceptOne s).emit (.system .accept)
  if ended = .eagain ∨ ended = .ewouldblock then s else s

def deleteDisconnected (env : PollEnv) (s : Server) : Server :=
  let disconnected := s.disconnectedSockets
  let s := { s.emit .polled with disconnectedSockets := [] }
  disconnected.foldl (fun s p ↦ s.del (env.epollCtl p) p) s

/-- What `epoll_wait` can report: registered pointers, at most one array full. -/
def reportable (events : List EpollEvent) (s : Server) : List EpollEvent :=
  (events.filter fun event ↦ s.registered.any fun r ↦ r.epfd = s.efd && r.ptr = event.ptr).take
    maxEpollEvents

def poll (env : PollEnv) (s : Server) : Server :=
  if s.efd < 0 then s
  else
    let s := (s.deleteDisconnected env).emit (.system .epollWait)
    match env.wait with
    | none => s
    | some events =>
      let (haveNewConnection, s) := (s.reportable events).foldl dispatch (false, s)
      if haveNewConnection then s.acceptLoop env.accepts env.ended else s

def runOp (s : Server) (action : ℕ × SocketOp) : Server :=
  let p := Ptr.client action.1
  if p ∈ s.sockets then
    match action.2 with
    | .consume rcvBuffer index => (place p).set
        { s.memory p with rcvBuffer := rcvBuffer, nextRcvValidIndex := index } (s.touch p)
    | .send data => (place p).set ((s.memory p).send data).2 (s.touch p)
    | .destroy => s.destroySocket p
    | .connect created => s.connectSocket p created
  else s

def runOps (ops : List (ℕ × SocketOp)) (s : Server) : Server := ops.foldl runOp s

/-- The receive callback of a socket: the application's for a client, the one
that the constructor installed for the listener. -/
def recvCallback (env : RoundEnv) (p : Ptr) (s : Server) : Server :=
  let s := s.emit (.recvCallback p)
  if p = .listener then (place p).set { s.memory p with nextRcvValidIndex := 0 } s
  else s.runOps (env.callback p)

def callSocket (env : RoundEnv) (p : Ptr) (s : Server) : Record × Server :=
  TCPSocket.sendAndRecv (place p) (env.io p) (fun _ ↦ recvCallback env p) (s.touch p)

def flagged (p : Ptr) (s : Server) : Bool :=
  (s.memory p).recvDisconnected || (s.memory p).sendDisconnected

/-- One service of a socket: the call and the test of the two flags behind it. -/
def serve (env : RoundEnv) (p : Ptr) (s : Server) : Bool × Server :=
  let (record, s) := s.callSocket env p
  let disconnected := s.flagged p
  let s := s.emit (.served p record disconnected)
  (record.returned, { s with
    disconnectedSockets :=
      if disconnected then addUnique s.disconnectedSockets p else s.disconnectedSockets })

def receiveLoop (env : RoundEnv) (acc : Bool × Server) (p : Ptr) : Bool × Server :=
  if p = .null then acc
  else
    let (received, s) := acc.2.serve env p
    (received || acc.1, s)

def sendLoop (env : RoundEnv) (s : Server) (p : Ptr) : Server :=
  if p = .null then s
  else if p ∈ s.receiveSockets then s
  else (s.serve env p).2

def sendAndRecv (env : RoundEnv) (s : Server) : Server :=
  if s.efd < 0 then s
  else
    let (receivedAnything, s) := s.receiveSockets.foldl (receiveLoop env) (false, s)
    let s := if receivedAnything then (s.emit .recvFinished).runOps env.finished else s
    s.sendSockets.foldl (sendLoop env) s

end Server

inductive Op
  | listen (env : ListenEnv)
  | poll (env : PollEnv)
  | sendAndRecv (env : RoundEnv)
  | destroy

def Server.call (s : Server) : Op → Server
  | .listen env => (s.listen env).2
  | .poll env => s.poll env
  | .sendAndRecv env => s.sendAndRecv env
  | .destroy => s.destroy

def run (memory : Ptr → Socket) (ops : List Op) : Server := ops.foldl Server.call (.new memory)

end LowLatency.TCPServer
