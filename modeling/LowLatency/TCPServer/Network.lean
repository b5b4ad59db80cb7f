import LowLatency.TCPServer.Isolation
import LowLatency.TCPSocket.Ends

namespace LowLatency.TCPServer

open Library.Words Library.ByteBuffer Library.Runs SocketUtils TCPSocket Function

section Script

def actionAt (x : Socket) : CallbackOp → SocketOp
  | .take n =>
    let k := min n x.nextRcvValidIndex
    .consume (move x.rcvBuffer 0 k (x.nextRcvValidIndex - k)) (x.nextRcvValidIndex - k)
  | .send data => .send data

def script : Socket → List CallbackOp → List SocketOp
  | _, [] => []
  | x, op :: ops => actionAt x op :: script ((actionAt x op).act x) ops

theorem runOp_actionAt (l : Link) (op : CallbackOp) :
    (l.runOp .b op).socket .b = (actionAt (l.socket .b) op).act (l.socket .b) := by
  cases op with
  | take n => simp only [Link.runOp, Link.take, actionAt, SocketOp.act, update_self]
  | send data => simp only [Link.runOp, Link.send, actionAt, SocketOp.act, update_self]

theorem recvCallback_script (l : Link) (ops : List CallbackOp) :
    (l.recvCallback .b ops).socket .b =
      (script (l.socket .b) ops).foldl (fun x op ↦ op.act x) (l.socket .b) := by
  induction ops generalizing l with
  | nil => rfl
  | cons op ops ih =>
    apply (ih (l.runOp .b op)).trans
    rw [runOp_actionAt]
    rfl

theorem turn_link (l : Link) (io : Io) (ops : List CallbackOp) :
    Turn.step ⟨io, script ((l.socket .b).receive io.recv).2.2 ops⟩ (l.socket .b) =
      (l.record .b io ops, (l.sendAndRecv .b io ops).socket .b) := by
  have hget : (Link.place .b).get l = l.socket .b := rfl
  unfold Turn.step Link.record Link.sendAndRecv
  by_cases hfd : (l.socket .b).fd < 0
  · rw [sendAndRecv_closed alone _ _ _ hfd, sendAndRecv_closed _ _ _ _ hfd]
  by_cases hfull : (l.socket .b).nextRcvValidIndex ≥ tcpBufferSize
  · rw [sendAndRecv_full alone _ _ _ hfd hfull, sendAndRecv_full _ _ _ _ hfd hfull]
    simp only [alone, Link.place, update_self, id_eq]
  obtain ⟨x, hx, hcall⟩ := sendAndRecv_open alone io
    (fun _ x ↦ (script ((l.socket .b).receive io.recv).2.2 ops).foldl (fun x op ↦ op.act x) x)
    (l.socket .b) hfd hfull
  obtain ⟨l₁, hl₁, hcall'⟩ := sendAndRecv_open (Link.place .b) io
    (fun _ ↦ Link.recvCallback .b ops) l hfd hfull
  have hsame : x = l₁.socket .b := by
    rcases hx with ⟨hnone, rfl⟩ | ⟨t, hsome, rfl⟩
    · rcases hl₁ with ⟨-, rfl⟩ | ⟨t', hsome', -⟩
      · exact ((Link.place .b).get_set _ l).symm
      · cases hnone.symm.trans hsome'
    · rcases hl₁ with ⟨hnone, -⟩ | ⟨t', -, rfl⟩
      · cases hnone.symm.trans hsome
      · have hset : ((Link.place .b).set ((l.socket .b).receive io.recv).2.2 l).socket .b =
            ((l.socket .b).receive io.recv).2.2 := (Link.place .b).get_set _ l
        rw [hget, recvCallback_script, hset]
        rfl
  rw [hcall, hcall', hsame]
  simp only [alone, Link.place, update_self, id_eq]

end Script

section Fresh

variable {a : ℕ} {s : Server}

/-- The socket has just been wrapped around an accepted descriptor. -/
def Fresh (x : Socket) : Prop :=
  0 ≤ x.fd ∧ ∃ sendBuffer rcvBuffer fd, x = { Socket.new sendBuffer rcvBuffer with fd := fd }

theorem acceptAll_fresh (hinv : Inv s) (accepts : List Accepted) (hnot : .client a ∉ s.sockets)
    (hin : .client a ∈ (accepts.foldl Server.acceptOne s).sockets) :
    (accepts.foldl Server.acceptOne s).efd = s.efd ∧
      Fresh ((accepts.foldl Server.acceptOne s).memory (.client a)) := by
  induction accepts generalizing s with
  | nil => exact absurd hin hnot
  | cons accepted accepts ih =>
    have hinv' := (hinv.acceptOne accepted).inv
    obtain ⟨p, -, -, ⟨hq, -⟩ | ⟨hj, -⟩⟩ := acceptOne_cases hinv.sound accepted
    · obtain ⟨hefd, hfresh⟩ := ih hinv' (hq.sockets ▸ hnot) hin
      exact ⟨hefd.trans hq.efd, hfresh⟩
    · by_cases hnow : .client a ∈ (s.acceptOne accepted).sockets
      · have hm := acceptAll_moved hinv' hnow accepts
        have hopen := (acceptOne_open hnow).resolve_left hnot
        rw [hj.sockets, mem_addUnique] at hnow
        refine ⟨hm.efd.trans hj.efd, ?_⟩
        rw [List.foldl_cons, hm.memory]
        exact ⟨hopen, hnow.resolve_left hnot ▸ hj.socket⟩
      · obtain ⟨hefd, hfresh⟩ := ih hinv' hnow hin
        exact ⟨hefd.trans hj.efd, hfresh⟩

theorem poll_fresh (hinv : Inv s) (env : PollEnv) (hnot : .client a ∉ s.sockets)
    (hin : .client a ∈ (s.poll env).sockets) :
    0 ≤ (s.poll env).efd ∧ Fresh ((s.poll env).memory (.client a)) := by
  by_cases hefd : s.efd < 0
  · rw [Server.poll, if_pos hefd] at hin
    exact absurd hin hnot
  have hpurged := hinv.deleteDisconnected env
  have hwait : Inv ((s.deleteDisconnected env).emit (.system .epollWait)) :=
    hpurged.inv.emit trivial
  have hknown := polledEvents_known env hwait
  have hd : Dispatched _ (s.dispatched env).2 := hwait.dispatchAll false _ hknown
  have hefd' : (s.dispatched env).2.efd = s.efd :=
    (dispatchAll_moved (a := a) hwait false _ hknown).efd.trans hpurged.efd
  have hnot' : .client a ∉ (s.dispatched env).2.sockets := by
    rw [hd.sockets]
    intro hmem
    have hkept : .client a ∈ (s.deleteDisconnected env).sockets := hmem
    rw [hpurged.sockets] at hkept
    exact hnot (List.mem_filter.1 hkept).1
  rw [s.poll_eq env hefd] at hin ⊢
  split at hin
  next hnew =>
    rw [if_pos hnew]
    unfold Server.acceptLoop at hin ⊢
    rw [ite_self] at hin ⊢
    obtain ⟨hsame, hfresh⟩ := acceptAll_fresh hd.inv env.accepts hnot' hin
    exact ⟨(not_lt.1 hefd).trans_eq (hsame.trans hefd').symm, hfresh⟩
  next => exact absurd hin hnot'

theorem run_fresh {memory : Ptr → Socket} {history : List Op} {env : PollEnv}
    (hnot : .client a ∉ (run memory history).sockets)
    (hin : .client a ∈ (run memory (history ++ [.poll env])).sockets) :
    0 ≤ (run memory (history ++ [.poll env])).efd ∧
      Fresh ((run memory (history ++ [.poll env])).memory (.client a)) := by
  have hlast : run memory (history ++ [.poll env]) = (run memory history).poll env :=
    List.foldl_append
  rw [hlast] at hin ⊢
  exact poll_fresh (run_inv memory history) env hnot hin

end Fresh

section Steps

/-- A server, and the connection between one of its clients and a socket
elsewhere. End `a` of the link is the peer, end `b` the client. -/
structure Network where
  server : Server
  link : Link

inductive PeerStep (l : Link) : Link → Prop
  | send (data : Data) : PeerStep l (l.send .a data)
  | sendAndRecv (io : Io) (ops : List CallbackOp)
      (h : io.recv.Permitted (l.channel .b) (l.closed .b)) : PeerStep l (l.sendAndRecv .a io ops)
  | close : PeerStep l { l with closed := update l.closed .a true }

/-- The server goes on as it likes with its other clients. The kernel passes
bytes between this client and its peer, and the callback of the client takes
bytes and replies. -/
inductive NetStep (a : ℕ) (n : Network) : Network → Prop
  | poll (env : PollEnv) (h : .client a ∉ n.server.disconnectedSockets) :
      NetStep a n { n with server := n.server.poll env }
  | sendAndRecv (env : RoundEnv) (ops : List CallbackOp) (hprivate : Private a env)
      (hops : actsOn a (env.callback (.client a)) =
        script ((n.server.memory (.client a)).receive (env.io (.client a)).recv).2.2 ops)
      (hrecv : (env.io (.client a)).recv.Permitted (n.link.channel .a) (n.link.closed .a)) :
      NetStep a n ⟨n.server.sendAndRecv env, n.link.sendAndRecv .b (env.io (.client a)) ops⟩
  | peer {l : Link} (h : PeerStep n.link l) : NetStep a n { n with link := l }

/-- What the server has handed to the kernel for a client, and what it has got
from it. -/
def sentTo (p : Ptr) (log : List Event) : List Byte :=
  (servedRecords p log).flatMap fun record ↦ acceptedBytes record.sends

def receivedFrom (p : Ptr) (log : List Event) : List Byte :=
  (servedRecords p log).flatMap Record.receivedBytes

/-- A client that has just been accepted, and its peer. What the peer has done
before that are its first steps. -/
def Network.accepted (a : ℕ) (s : Server) (fd : ℤ) (sendBuffer rcvBuffer : ℕ → Byte) : Network where
  server := s
  link := {
    socket := fun
      | .a => (Socket.new sendBuffer rcvBuffer).connect fd
      | .b => s.memory (.client a)
    channel := fun _ ↦ []
    closed := fun _ ↦ false
    accepted := fun _ ↦ []
    taken := fun _ ↦ [] }

end Steps

section Coupling

variable {a : ℕ} {n n' : Network} {log : List Event}

/-- The client in the server is end `b` of the link, and the log of the server
since `log` shows what has gone through the link. -/
structure Coupled (a : ℕ) (log : List Event) (n : Network) : Prop where
  inv : Inv n.server
  member : .client a ∈ n.server.sockets
  efd : 0 ≤ n.server.efd
  socket : n.link.socket .b = n.server.memory (.client a)
  balanced : Balanced n.link n.link.channel
  flows : ∃ new, n.server.log = log ++ new ∧
    sentTo (.client a) new = n.link.taken .a ++ (n.link.socket .a).unread ++ n.link.channel .b ∧
    receivedFrom (.client a) new = n.link.taken .b ++ (n.link.socket .b).unread

theorem sentTo_append (p : Ptr) (log new : List Event) :
    sentTo p (log ++ new) = sentTo p log ++ sentTo p new := by
  simp only [sentTo, servedRecords_append, List.flatMap_append]

theorem receivedFrom_append (p : Ptr) (log new : List Event) :
    receivedFrom p (log ++ new) = receivedFrom p log ++ receivedFrom p new := by
  simp only [receivedFrom, servedRecords_append, List.flatMap_append]

theorem Coupled.poll (h : Coupled a log n) (env : PollEnv)
    (hstays : .client a ∉ n.server.disconnectedSockets) :
    Coupled a log { n with server := n.server.poll env } := by
  have hm := poll_moved h.inv h.member hstays env
  obtain ⟨new, hlog, hsent, hreceived⟩ := h.flows
  obtain ⟨more, hmore, hnone⟩ := hm.log
  refine ⟨h.inv.poll env, hm.member h.member, hm.efd ▸ h.efd, ?_, h.balanced, new ++ more, ?_, ?_,
    ?_⟩
  · rw [h.socket]
    exact hm.memory.symm
  · rw [hmore, hlog, List.append_assoc]
  · rw [sentTo_append, hsent, sentTo, hnone]
    exact List.append_nil _
  · rw [receivedFrom_append, hreceived, receivedFrom, hnone]
    exact List.append_nil _

theorem Coupled.sendAndRecv (h : Coupled a log n) {env : RoundEnv} {ops : List CallbackOp}
    (hprivate : Private a env)
    (hops : actsOn a (env.callback (.client a)) =
      script ((n.server.memory (.client a)).receive (env.io (.client a)).recv).2.2 ops)
    (hrecv : (env.io (.client a)).recv.Permitted (n.link.channel .a) (n.link.closed .a)) :
    Coupled a log ⟨n.server.sendAndRecv env, n.link.sendAndRecv .b (env.io (.client a)) ops⟩ := by
  have hm := sendAndRecv_moved h.inv hprivate h.efd h.member
  have hturn : (turnOf a env).step (n.server.memory (.client a)) =
      (n.link.record .b (env.io (.client a)) ops,
        (n.link.sendAndRecv .b (env.io (.client a)) ops).socket .b) := by
    rw [turnOf, hops, ← h.socket]
    exact turn_link n.link (env.io (.client a)) ops
  have hown := OwnEnd.sendAndRecv .b (env.io (.client a)) ops n.link
  obtain ⟨hinto, hout⟩ := sendAndRecv_flows (x := .b) ops h.balanced hrecv
  obtain ⟨new, hlog, hsent, hreceived⟩ := h.flows
  obtain ⟨more, hmore, hrecords⟩ := hm.log
  have hmemory := hm.memory
  simp only [feed, hturn] at hrecords hmemory
  refine ⟨h.inv.sendAndRecv env, hm.member h.member, hm.efd ▸ h.efd, ?_,
    h.balanced.sendAndRecv .b _ ops hrecv, new ++ more, ?_, ?_, ?_⟩
  · exact hmemory.symm
  · rw [hmore, hlog, List.append_assoc]
  · rw [sentTo_append, hsent, sentTo, hrecords]
    dsimp only
    rw [hout, show n.link.taken .a = _ from hown.taken.symm,
      show n.link.socket .a = _ from hown.socket.symm]
    simp [Side.other]
  · rw [receivedFrom_append, hreceived, receivedFrom, hrecords]
    dsimp only
    rw [hinto]
    simp

theorem PeerStep.spec {l l' : Link} (h : PeerStep l l') (hl : Balanced l l.channel) :
    OwnEnd .a l l' ∧ Balanced l' l'.channel := by
  cases h with
  | send data => exact ⟨.send .a data l, hl.send .a data⟩
  | sendAndRecv io ops hp => exact ⟨.sendAndRecv .a io ops l, hl.sendAndRecv .a io ops hp⟩
  | close => exact ⟨⟨rfl, rfl, rfl, rfl, List.prefix_rfl⟩, hl.bounded, hl.stream⟩

theorem Coupled.peer (h : Coupled a log n) {l : Link} (hs : PeerStep n.link l) :
    Coupled a log { n with link := l } := by
  obtain ⟨hown, hbal⟩ := hs.spec h.balanced
  obtain ⟨new, hlog, hsent, hreceived⟩ := h.flows
  have hsocket : l.socket .b = n.link.socket .b := hown.socket
  have htaken : l.taken .b = n.link.taken .b := hown.taken
  refine ⟨h.inv, h.member, h.efd, hsocket.trans h.socket, hbal, new, hlog, ?_, ?_⟩
  · exact hsent.trans (hown.inflow h.balanced hbal).symm
  · dsimp only
    rw [htaken, hsocket, hreceived]

theorem Coupled.step (h : Coupled a log n) (hs : NetStep a n n') : Coupled a log n' := by
  cases hs with
  | poll env hstays => exact h.poll env hstays
  | sendAndRecv env ops hprivate hops hrecv => exact h.sendAndRecv hprivate hops hrecv
  | peer hs => exact h.peer hs

theorem accepted_coupled {s : Server} (hinv : Inv s) (hin : .client a ∈ s.sockets)
    (hefd : 0 ≤ s.efd) (hfresh : Fresh (s.memory (.client a))) (fd : ℤ)
    (sendBuffer rcvBuffer : ℕ → Byte) :
    Coupled a s.log (Network.accepted a s fd sendBuffer rcvBuffer) := by
  obtain ⟨-, buffer, buffer', fd', hsocket⟩ := hfresh
  have hempty (x : Side) :
      ((Network.accepted a s fd sendBuffer rcvBuffer).link.socket x).nextSendValidIndex = 0 ∧
        ((Network.accepted a s fd sendBuffer rcvBuffer).link.socket x).nextRcvValidIndex = 0 := by
    cases x with
    | a => exact ⟨rfl, rfl⟩
    | b => exact ⟨congrArg (·.nextSendValidIndex) hsocket, congrArg (·.nextRcvValidIndex) hsocket⟩
  have hpending (x : Side) :
      ((Network.accepted a s fd sendBuffer rcvBuffer).link.socket x).pending = [] := by
    rw [Socket.pending, (hempty x).1, slice_zero]
  have hunread (x : Side) :
      ((Network.accepted a s fd sendBuffer rcvBuffer).link.socket x).unread = [] := by
    rw [Socket.unread, (hempty x).2, slice_zero]
  refine ⟨hinv, hin, hefd, rfl, ⟨fun x ↦ ?_, fun x ↦ ?_⟩, [], (List.append_nil _).symm, ?_, ?_⟩
  · exact ⟨(hempty x).1 ▸ Nat.zero_le _, (hempty x).2 ▸ Nat.zero_le _⟩
  · rw [hpending, hunread]
    rfl
  · rw [hunread]
    rfl
  · rw [hunread]
    rfl

theorem network_coupled {memory : Ptr → Socket} {history : List Op} {env : PollEnv}
    (hnot : .client a ∉ (run memory history).sockets)
    (hin : .client a ∈ (run memory (history ++ [.poll env])).sockets) {fd : ℤ}
    {sendBuffer rcvBuffer : ℕ → Byte}
    (hrun : Relation.ReflTransGen (NetStep a)
      (Network.accepted a (run memory (history ++ [.poll env])) fd sendBuffer rcvBuffer) n) :
    Coupled a (run memory (history ++ [.poll env])).log n := by
  obtain ⟨hefd, hfresh⟩ := run_fresh hnot hin
  induction hrun with
  | refl => exact accepted_coupled (run_inv memory _) hin hefd hfresh fd sendBuffer rcvBuffer
  | tail _ hs ih => exact ih.step hs

end Coupling

/-- Between a client of a server and its peer no byte is lost, doubled or
brought out of order, as long as no `poll()` deletes the client and only its own
callback touches it, which takes bytes and replies: what the server has handed
to the kernel for the client, as its log shows, is what the peer has taken, has
not read yet or is on its way, and with the queued bytes it is what the callback
has replied; and so for the other direction. -/
theorem network_stream_integrity (memory : Ptr → Socket) (history : List Op) (env : PollEnv)
    {a : ℕ} (hnot : .client a ∉ (run memory history).sockets)
    (hin : .client a ∈ (run memory (history ++ [.poll env])).sockets)
    (fd : ℤ) (sendBuffer rcvBuffer : ℕ → Byte) {n : Network}
    (hrun : Relation.ReflTransGen (NetStep a)
      (Network.accepted a (run memory (history ++ [.poll env])) fd sendBuffer rcvBuffer) n) :
    ∃ new, n.server.log = (run memory (history ++ [.poll env])).log ++ new ∧
      sentTo (.client a) new =
        n.link.taken .a ++ (n.link.socket .a).unread ++ n.link.channel .b ∧
      sentTo (.client a) new ++ (n.server.memory (.client a)).pending = n.link.accepted .b ∧
      receivedFrom (.client a) new =
        n.link.taken .b ++ (n.server.memory (.client a)).unread ∧
      receivedFrom (.client a) new ++ n.link.channel .a ++ (n.link.socket .a).pending =
        n.link.accepted .a := by
  have hn := network_coupled hnot hin hrun
  obtain ⟨new, hlog, hsent, hreceived⟩ := hn.flows
  refine ⟨new, hlog, hsent, ?_, ?_, ?_⟩
  · rw [hsent, ← hn.socket]
    exact hn.balanced.stream .b
  · rw [hreceived, hn.socket]
  · rw [hreceived]
    exact hn.balanced.stream .a

section Scripted

def scripted (io : Io) (ops : List CallbackOp) (s : Server) : RoundEnv where
  io _ := io
  callback p := if p = .client 0 then
      (script ((s.memory (.client 0)).receive io.recv).2.2 ops).map fun op ↦ (0, op)
    else []
  finished := []

theorem script_plain (x : Socket) (ops : List CallbackOp) :
    ∀ op ∈ script x ops, ∀ created, op ≠ .connect created := by
  induction ops generalizing x with
  | nil => simp [script]
  | cons op ops ih =>
    intro action hmem created
    rcases List.mem_cons.1 hmem with rfl | hmem
    · cases op <;> simp [actionAt]
    · exact ih _ action hmem created

theorem scripted_private (io : Io) (ops : List CallbackOp) (s : Server) :
    Private 0 (scripted io ops s) where
  plain := by
    intro op hop _
    obtain ⟨action, hmem, rfl⟩ := List.mem_map.1 hop
    exact script_plain _ ops action hmem
  others b hb := by simp [scripted, hb]
  finished := by simp [scripted]

theorem actsOn_map (a : ℕ) (ops : List SocketOp) : actsOn a (ops.map fun op ↦ (a, op)) = ops := by
  simp [actsOn, List.filterMap_map]

theorem scripted_step (io : Io) (ops : List CallbackOp) (n : Network)
    (h : io.recv.Permitted (n.link.channel .a) (n.link.closed .a)) :
    NetStep 0 n ⟨n.server.sendAndRecv (scripted io ops n.server),
      n.link.sendAndRecv .b io ops⟩ :=
  .sendAndRecv (scripted io ops n.server) ops (scripted_private io ops n.server)
    (actsOn_map 0 (script ((n.server.memory (.client 0)).receive io.recv).2.2 ops)) h

def welcoming : PollEnv :=
  ⟨fun _ ↦ true, some [⟨.listener, false, false, true, false⟩], [connection 6 0], .eagain⟩

def visited : List Op := [listening] ++ [.poll welcoming]

theorem visited_new : .client 0 ∉ (run blank [listening]).sockets := by decide

theorem visited_client : .client 0 ∈ (run blank ([listening] ++ [.poll welcoming])).sockets := by
  decide

theorem network_stream_integrity_one :
    ∃ n : Network, n.link.taken .b = [1] ∧ n.link.channel .a = [2] ∧ n.link.channel .b = [8] ∧
      ∃ new, n.server.log = (run blank visited).log ++ new ∧
        sentTo (.client 0) new ++ (n.server.memory (.client 0)).pending = n.link.accepted .b := by
  have hrun : Relation.ReflTransGen (NetStep 0)
      (Network.accepted 0 (run blank visited) 7 (fun _ ↦ 0) (fun _ ↦ 0)) _ :=
    ((Relation.ReflTransGen.refl.tail (.peer (.send (.bytes [1, 2])))).tail
      (.peer (.sendAndRecv ⟨.error .eagain, fun i ↦ if i = 0 then .sent 2 else .error .eagain⟩ []
        trivial))).tail
      (scripted_step ⟨.received [1] [], fun i ↦ if i = 0 then .sent 1 else .error .eagain⟩
        [.take 1, .send (.bytes [8, 9])] _ ⟨by decide, nofun⟩)
  obtain ⟨new, hlog, -, hsent, -⟩ := network_stream_integrity blank [listening] welcoming
    visited_new visited_client 7 _ _ hrun
  exact ⟨_, by decide, by decide, by decide, new, hlog, hsent⟩

end Scripted

end LowLatency.TCPServer
