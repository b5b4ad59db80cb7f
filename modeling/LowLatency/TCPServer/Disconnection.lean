import LowLatency.TCPServer.Clients
import LowLatency.TCPServer.Service

namespace LowLatency.TCPServer

open Library.Handles SocketUtils TCPSocket Function

def SocketOp.replies : SocketOp → Bool
  | .consume .. => true
  | .send _ => true
  | _ => false

/-- The callbacks of a round only take bytes and call `send()`. -/
structure RepliesOnly (env : RoundEnv) : Prop where
  callback : ∀ p, ∀ op ∈ env.callback p, op.2.replies = true
  finished : ∀ op ∈ env.finished, op.2.replies = true

section Callbacks

structure Queues (x y : Socket) : Prop where
  recv : y.recvDisconnected = x.recvDisconnected
  send : y.sendDisconnected = x.sendDisconnected
  bounded : x.nextSendValidIndex ≤ tcpBufferSize → y.nextSendValidIndex ≤ tcpBufferSize

theorem Queues.refl (x : Socket) : Queues x x := ⟨rfl, rfl, id⟩

theorem Queues.trans {x y z : Socket} (h : Queues x y) (h' : Queues y z) : Queues x z :=
  ⟨h'.recv.trans h.recv, h'.send.trans h.send, h'.bounded ∘ h.bounded⟩

theorem Queues.of_send (x : Socket) (data : Data) : Queues x (x.send data).2 := by
  obtain ⟨hframe, hflag⟩ := send_frame x data
  refine ⟨hframe.flag, hflag, ?_⟩
  intro hle
  rcases send_cases hle data with ⟨-, -, -, hle'⟩ | ⟨-, heq⟩
  · exact hle'
  · rwa [heq]

variable {s : Server}

theorem queues_set {p : Ptr} {x : Socket} (h : Queues (s.memory p) x) (q : Ptr) :
    Queues (s.memory q) (((Server.place p).set x s).memory q) := by
  simp only [Server.place]
  rcases eq_or_ne q p with rfl | hq
  · rwa [update_self]
  · rw [update_of_ne hq]
    exact .refl _

theorem runOp_queues {op : ℕ × SocketOp} (hop : op.2.replies = true) (q : Ptr) :
    Queues (s.memory q) ((s.runOp op).memory q) := by
  obtain ⟨a, op⟩ := op
  by_cases hmem : Ptr.client a ∈ s.sockets
  · cases op with
    | consume rcvBuffer index =>
      simp only [Server.runOp, if_pos hmem]
      refine queues_set (s := s.touch (.client a)) ?_ q
      exact ⟨rfl, rfl, id⟩
    | send data =>
      simp only [Server.runOp, if_pos hmem]
      exact queues_set (s := s.touch (.client a)) (.of_send _ data) q
    | destroy => cases hop
    | connect created => cases hop
  · rw [Server.runOp, if_neg hmem]
    exact .refl _

theorem runOps_queues {ops : List (ℕ × SocketOp)} (hops : ∀ op ∈ ops, op.2.replies = true)
    (q : Ptr) : Queues (s.memory q) ((s.runOps ops).memory q) := by
  induction ops generalizing s with
  | nil => exact .refl _
  | cons op ops ih =>
    exact (runOp_queues (hops op (by simp)) q).trans (ih fun op hop ↦ hops op (by simp [hop]))

end Callbacks

/-- Of the calls that the receive loop makes in turn, the one on `p` itself
leaves a flag of `p` set in memory. -/
def leavesFlag (env : RoundEnv) (p : Ptr) : List Ptr → Server → Bool
  | [], _ => false
  | q :: l, s =>
    let x := (s.callSocket env q).2.memory q
    (decide (p = q) && (x.recvDisconnected || x.sendDisconnected)) ||
      leavesFlag env p l (s.serve env q).2

/-- Whether `p` is broken behind a call, given whether it was before: from the
events that `epoll_wait` hands over and the flags in memory alone. -/
def breakStep (p : Ptr) (s : Server) (broken : Bool) : Op → Bool
  | .listen _ => false
  | .poll env =>
    if s.efd < 0 then broken
    else (s.polledEvents env).any fun event ↦ event.ptr = p && (event.err || event.hup)
  | .sendAndRecv env => broken || (decide (0 ≤ s.efd) && leavesFlag env p s.receiveSockets s)
  | .destroy => false

def brokenIn (p : Ptr) : List Op → Server → Bool → Bool
  | [], _, broken => broken
  | op :: ops, s, broken => brokenIn p ops (s.call op) (breakStep p s broken op)

/-- Since the last `poll()` began to dispatch its events, one of them had
`EPOLLERR` or `EPOLLHUP` for `p`, or a `TCPSocket::sendAndRecv` on `p` has left
it with a flag set. -/
def broken (memory : Ptr → Socket) (ops : List Op) (p : Ptr) : Bool :=
  brokenIn p ops (.new memory) false

section Marks

variable {s : Server} {p : Ptr}

theorem Inv.receiveLoop_disconnected (h : Inv s) (env : RoundEnv) (l : List Ptr)
    (hl : ∀ q ∈ l, s.known q) (b : Bool) :
    p ∈ (l.foldl (Server.receiveLoop env) (b, s)).2.disconnectedSockets ↔
      p ∈ s.disconnectedSockets ∨ leavesFlag env p l s = true := by
  induction l generalizing s b with
  | nil => simp [leavesFlag]
  | cons q l ih =>
    have hq := hl q (by simp)
    have hr := h.serveRound hq env
    rw [List.foldl_cons, h.receiveLoop_eq hq,
      ih hr.inv (fun r hr' ↦ hr.known (hl r (by simp [hr']))), serve_listed h hq.holder, or_assoc,
      leavesFlag, Bool.or_eq_true, Bool.and_eq_true, decide_eq_true_eq]
    rfl

theorem Inv.sendAndRecv_disconnected (h : Inv s) (env : RoundEnv) (hefd : ¬ s.efd < 0) (a : ℕ) :
    .client a ∈ (s.sendAndRecv env).disconnectedSockets ↔ .client a ∈ s.disconnectedSockets ∨
      leavesFlag env (.client a) s.receiveSockets s = true := by
  obtain ⟨t, u, received, received', hloop, hround, hu, hround'⟩ := h.sendAndRecv_open env hefd
  have hreceive := h.receiveLoop_disconnected (p := .client a) env s.receiveSockets
    (fun q hq ↦ .inl (h.lists.receive_eq ▸ hq)) false
  rw [hloop] at hreceive
  have hfinished : u.disconnectedSockets = t.disconnectedSockets := by
    rw [hu]
    split
    · exact (Quiet.runOps env.finished (t.emit .recvFinished)).disconnectedSockets
    · rfl
  -- What the second loop serves is no client.
  have hextra : .client a ∉ s.sendSockets.filter (· ∉ s.sockets) := by
    intro hmem
    obtain ⟨hmem, hout⟩ := List.mem_filter.1 hmem
    have hl := (h.lists.send_known _ hmem).resolve_left (of_decide_eq_true hout)
    exact Ptr.noConfusion hl.1
  rw [hround'.disconnected _ hextra, hfinished, hreceive]

theorem Inv.call_disconnected (h : Inv s) (op : Op) (a : ℕ) {b : Bool}
    (hb : .client a ∈ s.disconnectedSockets ↔ b = true) :
    .client a ∈ (s.call op).disconnectedSockets ↔ breakStep (.client a) s b op = true := by
  cases op with
  | listen env =>
    obtain ⟨hinv, hnil, -⟩ := h.listen env
    refine iff_of_false (fun hmem ↦ ?_) Bool.false_ne_true
    rcases hinv.lists.disconnected_known _ hmem with hmem | hl
    · rw [hnil] at hmem
      cases hmem
    · exact Ptr.noConfusion hl.1
  | poll env =>
    by_cases hefd : s.efd < 0
    · rwa [Server.call, Server.poll, if_pos hefd, breakStep, if_pos hefd]
    · rw [Server.call, h.poll_disconnected env hefd, breakStep, if_neg hefd, List.any_eq_true]
      simp only [Bool.and_eq_true, decide_eq_true_eq]
  | sendAndRecv env =>
    rw [Server.call, breakStep, Bool.or_eq_true, ← hb]
    by_cases hefd : s.efd < 0
    · rw [Server.sendAndRecv, if_pos hefd, decide_eq_false (not_le.2 hefd), Bool.false_and,
        or_iff_left Bool.false_ne_true]
    · rw [h.sendAndRecv_disconnected env hefd, decide_eq_true (not_lt.1 hefd), Bool.true_and]
  | destroy =>
    refine iff_of_false ?_ Bool.false_ne_true
    rw [Server.call, h.destroy.disconnectedSockets]
    exact List.not_mem_nil

theorem Inv.calls_disconnected (h : Inv s) (ops : List Op) (a : ℕ) {b : Bool}
    (hb : .client a ∈ s.disconnectedSockets ↔ b = true) :
    .client a ∈ (ops.foldl Server.call s).disconnectedSockets ↔
      brokenIn (.client a) ops s b = true := by
  induction ops generalizing s b with
  | nil => exact hb
  | cons op ops ih => exact ih (h.call op) (h.call_disconnected op a hb)

theorem run_disconnected (memory : Ptr → Socket) (ops : List Op)
    (hp : p ∈ (run memory ops).sockets) :
    p ∈ (run memory ops).disconnectedSockets ↔ broken memory ops p = true := by
  obtain ⟨a, -, rfl⟩ := ((run_inv memory ops).sound.owned_iff p).1 hp
  exact (Idle.new memory).inv.calls_disconnected ops a
    (iff_of_false List.not_mem_nil Bool.false_ne_true)

theorem leavesFlag_notMem {env : RoundEnv} {l : List Ptr} (hp : p ∉ l) :
    leavesFlag env p l s = false := by
  induction l generalizing s with
  | nil => rfl
  | cons q l ih =>
    obtain ⟨hne, hp⟩ := not_or.1 (mt List.mem_cons.2 hp)
    rw [leavesFlag, decide_eq_false hne, Bool.false_and, Bool.false_or]
    exact ih hp

end Marks

section Flags

variable {s : Server} {p q : Ptr} {env : RoundEnv}

theorem runOps_flagged {ops : List (ℕ × SocketOp)} (hops : ∀ op ∈ ops, op.2.replies = true)
    (p : Ptr) (s : Server) : (s.runOps ops).flagged p = s.flagged p := by
  have hq := runOps_queues (s := s) hops p
  rw [Server.flagged, Server.flagged, hq.recv, hq.send]

theorem callSocket_flagged (h : Inv s) (hq : some q ∈ holders s.members) (hne : p ≠ q)
    (hops : ∀ op ∈ env.callback q, op.2.replies = true) :
    (s.callSocket env q).2.flagged p = s.flagged p := by
  have hset : ∀ (s : Server) (x : Socket), ((Server.place q).set x s).flagged p = s.flagged p :=
    fun s x ↦ by rw [Server.flagged, Server.flagged, s.place_set_elsewhere q x hne]
  rw [callSocket_eq h hq]
  rcases sendAndRecv_split (Server.place q) (env.io q) (fun _ ↦ Server.recvCallback env q) s
    (fun s t ↦ t.flagged p = s.flagged p) (fun _ ↦ rfl) (fun h h' ↦ h'.trans h)
    (fun s x _ ↦ hset s x) with ⟨-, h⟩ | ⟨-, t, w, h, h'⟩
  · exact h
  · refine h'.trans (Eq.trans ?_ h)
    unfold Server.recvCallback
    split
    · exact hset _ _
    · exact runOps_flagged hops p _

theorem Inv.serve_flagged (h : Inv s) (hq : s.known q) (hne : p ≠ q) (henv : RepliesOnly env) :
    (s.serve env q).2.flagged p = s.flagged p :=
  callSocket_flagged h hq.holder hne (henv.callback q)

theorem Inv.receiveLoop_flagged (h : Inv s) (henv : RepliesOnly env) (l : List Ptr)
    (hl : ∀ q ∈ l, s.known q) (hnot : p ∉ l) (b : Bool) :
    (l.foldl (Server.receiveLoop env) (b, s)).2.flagged p = s.flagged p := by
  induction l generalizing s b with
  | nil => rfl
  | cons q l ih =>
    obtain ⟨hne, hnot⟩ := not_or.1 (mt List.mem_cons.2 hnot)
    have hq := hl q (by simp)
    have hr := h.serveRound hq env
    rw [List.foldl_cons, h.receiveLoop_eq hq,
      ih hr.inv (fun r hr' ↦ hr.known (hl r (by simp [hr']))) hnot]
    exact h.serve_flagged hq hne henv

theorem Inv.receiveLoop_leavesFlag (h : Inv s) (henv : RepliesOnly env) {l : List Ptr}
    (hl : ∀ q ∈ l, s.known q) (hnodup : l.Nodup) (hp : p ∈ l) (b : Bool) :
    leavesFlag env p l s = (l.foldl (Server.receiveLoop env) (b, s)).2.flagged p := by
  induction l generalizing s b with
  | nil => cases hp
  | cons q l ih =>
    obtain ⟨hnot, hnodup⟩ := List.nodup_cons.1 hnodup
    have hq := hl q (by simp)
    have hr := h.serveRound hq env
    have hrest : ∀ r ∈ l, (s.serve env q).2.known r := fun r hr' ↦ hr.known (hl r (by simp [hr']))
    rw [List.foldl_cons, h.receiveLoop_eq hq, leavesFlag]
    rcases List.mem_cons.1 hp with rfl | hp
    · rw [hr.inv.receiveLoop_flagged henv l hrest hnot, leavesFlag_notMem hnot,
        decide_eq_true rfl, Bool.true_and, Bool.or_false]
      rfl
    · have hne : p ≠ q := fun heq ↦ hnot (heq ▸ hp)
      rw [decide_eq_false hne, Bool.false_and, Bool.false_or]
      exact ih hr.inv hrest hnodup hp _

theorem Inv.sendLoop_flagged (h : Inv s) (env : RoundEnv) (l : List Ptr) (hl : ∀ q ∈ l, s.known q)
    (hp : p ≠ .listener) : (l.foldl (Server.sendLoop env) s).flagged p = s.flagged p := by
  induction l generalizing s with
  | nil => rfl
  | cons q l ih =>
    have hq := hl q (by simp)
    have hrest : ∀ r ∈ l, s.known r := fun r hr ↦ hl r (by simp [hr])
    rw [List.foldl_cons, h.sendLoop_eq hq]
    by_cases hmem : q ∈ s.sockets
    · rw [if_pos hmem]
      exact ih h hrest
    · have hr := h.serveRound hq env
      obtain rfl := (hq.resolve_left hmem).1
      rw [if_neg hmem, ih hr.inv fun r hr' ↦ hr.known (hrest r hr')]
      show (s.callSocket env .listener).2.flagged p = _
      rw [Server.flagged, Server.flagged, callSocket_listener h env hp]

theorem Inv.leavesFlag_eq (h : Inv s) (hefd : ¬ s.efd < 0) (henv : RepliesOnly env)
    (hp : p ∈ s.sockets) :
    leavesFlag env p s.receiveSockets s = (s.sendAndRecv env).flagged p := by
  have hknown : ∀ q ∈ s.receiveSockets, s.known q := fun q hq ↦ .inl (h.lists.receive_eq ▸ hq)
  have hl : p ≠ .listener := fun heq ↦ h.listener_notMem (heq ▸ hp)
  obtain ⟨received, -, hround⟩ := h.receiveRound env s.receiveSockets hknown false
  rw [h.receiveLoop_leavesFlag henv hknown (h.lists.receive_eq ▸ h.lists.sockets_nodup)
    (h.lists.receive_eq ▸ hp) false]
  unfold Server.sendAndRecv
  rw [if_neg hefd]
  generalize s.receiveSockets.foldl (Server.receiveLoop env) (false, s) = r at hround
  obtain ⟨b, t⟩ := r
  dsimp only at hround ⊢
  cases b with
  | false => exact (hround.inv.sendLoop_flagged env _ hround.inv.lists.send_known hl).symm
  | true =>
    have hfin := (hround.inv.emit (e := .recvFinished) trivial).runOps env.finished
    rw [if_pos rfl, hfin.sendLoop_flagged env _ hfin.lists.send_known hl]
    exact (runOps_flagged henv.finished p (t.emit .recvFinished)).symm

end Flags

section Lifecycle

/-- In every reachable state a `poll()` deletes exactly the broken clients, each
once, whether or not its own `epoll_wait` succeeds. The other clients keep
everything, and `sendAndRecv()` removes nobody; if the callbacks only reply, it
leaves the flags in memory by which it breaks a client. -/
theorem run_disconnection_lifecycle (memory : Ptr → Socket) (ops : List Op) (env : PollEnv)
    (hefd : 0 ≤ (run memory ops).efd) :
    (∃ gone : List Ptr, gone.Nodup ∧
      (∀ p, p ∈ gone ↔ p ∈ (run memory ops).sockets ∧ broken memory ops p = true) ∧
      Deletes gone (run memory ops) ((run memory ops).deleteDisconnected env)) ∧
    (env.wait = none → (run memory ops).poll env =
      ((run memory ops).deleteDisconnected env).emit (.system .epollWait)) ∧
    ((run memory ops).deleteDisconnected env).sockets <+: ((run memory ops).poll env).sockets ∧
    ((run memory ops).deleteDisconnected env).receiveSockets <+:
      ((run memory ops).poll env).receiveSockets ∧
    ((run memory ops).deleteDisconnected env).sendSockets <+:
      ((run memory ops).poll env).sendSockets ∧
    (∀ p ∈ (run memory ops).sockets, broken memory ops p = false →
      KeepsClient p (run memory ops) ((run memory ops).poll env)) ∧
    (∀ env', ((run memory ops).sendAndRecv env').sockets = (run memory ops).sockets) ∧
    ∀ env', RepliesOnly env' → ∀ p ∈ (run memory ops).sockets,
      leavesFlag env' p (run memory ops).receiveSockets (run memory ops) =
        ((((run memory ops).sendAndRecv env').memory p).recvDisconnected ||
          (((run memory ops).sendAndRecv env').memory p).sendDisconnected) := by
  have h := run_inv memory ops
  have hbroken := fun p ↦ run_disconnected (p := p) memory ops
  generalize broken memory ops = broken at hbroken
  generalize run memory ops = s at h hefd hbroken
  have hpoll := h.poll_open env (not_lt.2 hefd)
  have hpurged := h.deleteDisconnected env
  have hgone : ∀ p, p ∈ s.disconnectedSockets.filter (· ≠ .listener) ↔
      p ∈ s.sockets ∧ broken p = true := by
    intro p
    rw [h.mem_disconnected, ← h.lists.marked_iff]
    exact and_congr_right fun hp ↦ hbroken p hp
  refine ⟨⟨_, h.lists.disconnected_nodup.filter _, hgone, h.deletes env⟩,
    ?_, hpoll.sockets, ?_, hpoll.sendSockets, ?_, fun env' ↦ (h.sendAndRecv_frame env').2,
    fun env' henv p hp ↦ h.leavesFlag_eq (not_lt.2 hefd) henv hp⟩
  · intro hwait
    rw [Server.poll, if_neg (not_lt.2 hefd), hwait]
  · rw [hpurged.inv.lists.receive_eq, hpoll.inv.lists.receive_eq]
    exact hpoll.sockets
  · intro p hp hm
    have hstay : p ∉ s.disconnectedSockets.filter (· ≠ .listener) := fun hmem ↦
      absurd (hm.symm.trans ((hgone p).1 hmem).2) Bool.false_ne_true
    have hmem : p ∈ (s.deleteDisconnected env).sockets := by
      rw [hpurged.sockets]
      exact List.mem_filter.2 ⟨hp, decide_eq_true hstay⟩
    have hholder := Server.mem_holders hmem
    refine ⟨?_, (hpoll.memory p hholder).trans (hpurged.memory p hstay),
      (hpoll.registered p hholder).trans (hpurged.registered p hstay)⟩
    exact hpoll.inv.sound.live (Server.mem_holders (hpoll.sockets.subset hmem))

def firstCloses : RoundEnv where
  io p := ⟨if p = .client 0 then .received [] [] else .error .eagain, fun _ ↦ .error .eagain⟩
  callback _ := []
  finished := []

/-- `EPOLLHUP` is reported for the second of three clients, then the first one
reaches its end of stream. -/
def twoBreak : List Op :=
  [listening, accepting [connection 5 0, connection 6 1, connection 7 2],
    reporting [⟨.client 1, false, true, false, false⟩] [], .sendAndRecv firstCloses]

theorem run_disconnection_lifecycle_two :
    broken blank twoBreak (.client 0) = true ∧ broken blank twoBreak (.client 1) = true ∧
    broken blank twoBreak (.client 2) = false ∧
    (∃ gone : List Ptr, gone.Nodup ∧
      (∀ p, p ∈ gone ↔ p ∈ (run blank twoBreak).sockets ∧ broken blank twoBreak p = true) ∧
      Deletes gone (run blank twoBreak)
        ((run blank twoBreak).deleteDisconnected ⟨fun _ ↦ true, none, [], .eagain⟩)) ∧
    KeepsClient (.client 2) (run blank twoBreak)
      ((run blank twoBreak).poll ⟨fun _ ↦ true, none, [], .eagain⟩) ∧
    ((run blank twoBreak).poll ⟨fun _ ↦ true, none, [], .eagain⟩).sockets = [.client 2] := by
  obtain ⟨hgone, -, -, -, -, hkeeps, -⟩ := run_disconnection_lifecycle blank twoBreak
    ⟨fun _ ↦ true, none, [], .eagain⟩ (by decide)
  exact ⟨by decide, by decide, by decide, hgone, hkeeps _ (by decide) (by decide), by decide⟩

end Lifecycle

end LowLatency.TCPServer
