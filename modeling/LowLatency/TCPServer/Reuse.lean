import LowLatency.TCPServer.Twins

namespace LowLatency.TCPServer

open Library.Handles SocketUtils TCPSocket Function

section Listener

variable {s : Server}

def Server.ListenerFd (s : Server) : Prop := -1 ≤ (s.memory .listener).fd

namespace Server.ListenerFd

theorem set (h : s.ListenerFd) {p : Ptr} {x : Socket} (hx : x.fd = (s.memory p).fd) :
    ((place p).set x s).ListenerFd := by
  unfold ListenerFd
  rcases eq_or_ne Ptr.listener p with rfl | hne
  · rw [place_set_memory, hx]
    exact h
  · rw [place_set_elsewhere s p x hne]
    exact h

theorem destroySocket (h : s.ListenerFd) (p : Ptr) : (s.destroySocket p).ListenerFd := by
  unfold ListenerFd
  rw [destroySocket_memory]
  rcases eq_or_ne Ptr.listener p with rfl | hne
  · rw [update_self, Socket.destroy]
    dsimp only
    split
    · exact le_rfl
    · exact h
  · rw [update_of_ne hne]
    exact h

theorem connectSocket (h : s.ListenerFd) (p : Ptr) (created : Option ℕ) :
    (s.connectSocket p created).ListenerFd := by
  have hd := h.destroySocket p
  unfold Server.connectSocket ListenerFd
  rcases eq_or_ne Ptr.listener p with rfl | hne
  · cases created with
    | none =>
      dsimp only
      rw [update_self]
      exact le_rfl
    | some hint =>
      dsimp only
      rw [update_self]
      exact Int.le_trans (by decide) (newFd_nonneg _ hint)
  · cases created with
    | none =>
      dsimp only
      rw [update_of_ne hne]
      exact hd
    | some hint =>
      dsimp only
      rw [update_of_ne hne]
      exact hd

theorem deleteSocket (h : s.ListenerFd) (p : Ptr) : (s.deleteSocket p).ListenerFd := by
  have hd := h.destroySocket p
  unfold Server.deleteSocket
  cases p <;> exact hd

theorem epollAdd (h : s.ListenerFd) (ok : Bool) (p : Ptr) : (s.epollAdd ok p).2.ListenerFd := by
  unfold Server.epollAdd
  split
  · exact h
  · cases ok <;> exact h

theorem destroy_eq (h : s.ListenerFd) :
    ∃ t : Server, t.ListenerFd ∧ s.destroy = t.destroySocket .listener := by
  have hall : ∀ (ps : List Ptr) (s : Server), s.ListenerFd →
      (ps.foldl (fun s p ↦ s.deleteSocket p) s).ListenerFd := by
    intro ps
    induction ps with
    | nil => exact fun _ h ↦ h
    | cons p ps ih => exact fun s h ↦ ih _ (h.deleteSocket p)
  have hclosed : ∀ s : Server, s.ListenerFd → s.closeEpoll.ListenerFd := by
    intro s h
    unfold closeEpoll
    split <;> exact h
  have hcleared : ((s.sockets.foldl (fun s p ↦ s.deleteSocket p) s).clearLists.emit
      .destroyed).ListenerFd := hall s.sockets s h
  exact ⟨_, hclosed _ hcleared, rfl⟩

theorem destroy (h : s.ListenerFd) : s.destroy.ListenerFd := by
  obtain ⟨t, ht, hd⟩ := h.destroy_eq
  rw [hd]
  exact ht.destroySocket .listener

theorem listen (h : s.ListenerFd) (env : ListenEnv) : (s.listen env).2.ListenerFd := by
  have hd := h.destroy
  unfold Server.listen
  cases env.epollCreate with
  | none => exact hd
  | some hint =>
    have hopened : ListenerFd { (s.destroy.emit (.system .epollCreate)).opened
        ((s.destroy.emit (.system .epollCreate)).newFd hint) with
        efd := (s.destroy.emit (.system .epollCreate)).newFd hint } := hd
    have hc := hopened.connectSocket .listener env.createSocket
    dsimp only
    split
    · exact hc.destroy
    · split
      · exact hc.epollAdd env.epollCtl .listener
      · exact (hc.epollAdd env.epollCtl .listener).destroy

theorem poll (h : s.ListenerFd) (hs : Inv s) (env : PollEnv) : (s.poll env).ListenerFd := by
  by_cases hefd : s.efd < 0
  · rwa [Server.poll, if_pos hefd]
  · have hlistener := (hs.poll_open env hefd).memory .listener (some_mem_holders.2 (.inl rfl))
    have hstays := (hs.deleteDisconnected env).memory .listener (by simp)
    unfold ListenerFd
    rw [hlistener, hstays]
    exact h

theorem runOps (h : s.ListenerFd) (ops : List (ℕ × SocketOp)) : (s.runOps ops).ListenerFd := by
  induction ops generalizing s with
  | nil => exact h
  | cons op ops ih =>
    apply ih
    rcases s.runOp_cases op with ho | ⟨p, -, ⟨x, hx, ho⟩ | ho | ⟨created, ho⟩⟩ <;> rw [ho]
    · exact h
    · exact set (s := s.touch p) h hx
    · exact h.destroySocket p
    · exact h.connectSocket p created

theorem recvCallback (h : s.ListenerFd) (env : RoundEnv) (p : Ptr) :
    (s.recvCallback env p).ListenerFd := by
  unfold Server.recvCallback
  dsimp only
  split
  · exact set (s := s.emit (.recvCallback p)) h rfl
  · exact runOps (s := s.emit (.recvCallback p)) h _

theorem serve (h : s.ListenerFd) (env : RoundEnv) (p : Ptr) : (s.serve env p).2.ListenerFd := by
  show (s.callSocket env p).2.ListenerFd
  rcases sendAndRecv_split (place p) (env.io p) (fun _ ↦ Server.recvCallback env p) (s.touch p)
    (fun s t ↦ s.ListenerFd → t.ListenerFd) (fun _ ↦ id) (fun hst htu ↦ htu ∘ hst)
    (fun s x hx hs ↦ hs.set hx) with ⟨-, hcall⟩ | ⟨-, t, w, hbefore, hafter⟩
  · exact hcall h
  · exact hafter ((hbefore h).recvCallback env p)

theorem sendAndRecv (h : s.ListenerFd) (env : RoundEnv) : (s.sendAndRecv env).ListenerFd := by
  have hreceive : ∀ (ps : List Ptr) (b : Bool) (s : Server), s.ListenerFd →
      (ps.foldl (receiveLoop env) (b, s)).2.ListenerFd := by
    intro ps
    induction ps with
    | nil => exact fun _ _ h ↦ h
    | cons p ps ih =>
      intro b s h
      rw [List.foldl_cons, receiveLoop]
      split
      · exact ih b s h
      · exact ih _ _ (h.serve env p)
  have hsend : ∀ (ps : List Ptr) (s : Server), s.ListenerFd →
      (ps.foldl (sendLoop env) s).ListenerFd := by
    intro ps
    induction ps with
    | nil => exact fun _ h ↦ h
    | cons p ps ih =>
      intro s h
      rw [List.foldl_cons, sendLoop]
      split
      · exact ih s h
      split
      · exact ih s h
      · exact ih _ (h.serve env p)
  unfold Server.sendAndRecv
  split
  · exact h
  have hloop := hreceive s.receiveSockets false s h
  dsimp only
  apply hsend
  split
  · exact runOps (s := Server.emit .recvFinished _) hloop env.finished
  · exact hloop

theorem call (h : s.ListenerFd) (hs : Inv s) (op : Op) : (s.call op).ListenerFd := by
  cases op with
  | listen env => exact h.listen env
  | poll env => exact h.poll hs env
  | sendAndRecv env => exact h.sendAndRecv env
  | destroy => exact h.destroy

theorem calls (h : s.ListenerFd) (hs : Inv s) (ops : List Op) :
    (ops.foldl Server.call s).ListenerFd := by
  induction ops generalizing s with
  | nil => exact h
  | cons op ops ih => exact ih (h.call hs op) (hs.call op)

end Server.ListenerFd

theorem run_listenerFd (memory : Ptr → Socket) (ops : List Op) :
    (run memory ops).ListenerFd := by
  refine Server.ListenerFd.calls ?_ (Idle.new memory).inv ops
  unfold Server.ListenerFd Server.new
  dsimp only
  rw [update_self]
  exact le_rfl

theorem similar_destroyed {x y : Socket} (hx : -1 ≤ x.fd) (hy : -1 ≤ y.fd) :
    Similar x.destroy y.destroy where
  fd := by
    have hclosed : ∀ z : Socket, -1 ≤ z.fd → z.destroy.fd = -1 := by
      intro z hz
      unfold Socket.destroy
      dsimp only
      split <;> omega
    rw [hclosed x hx, hclosed y hy]
  sendIndex := rfl
  sendBound := Nat.zero_le _
  sendBytes := nofun
  rcvIndex := rfl
  rcvBytes := nofun
  sendFlag := rfl
  recvFlag := rfl

end Listener

section Reuse

variable {s t : Server}

theorem Idle.allocated (h : Idle s) : s.allocated = [] := by
  apply List.eq_nil_iff_forall_not_mem.2
  intro a ha
  have hmem : Ptr.client a ∈ s.members := (h.inv.sound.owned_iff _).2 ⟨a, ha, rfl⟩
  have hsockets : Ptr.client a ∈ s.sockets := hmem
  rw [h.sockets] at hsockets
  cases hsockets

theorem Idle.twin (hs : Idle s) (ht : Idle t)
    (hl : Similar (s.memory .listener) (t.memory .listener)) : Twin s.log t.log s t where
  efd := hs.efd.trans ht.efd.symm
  sockets := hs.sockets.trans ht.sockets.symm
  receiveSockets := by
    rw [hs.inv.lists.receive_eq, ht.inv.lists.receive_eq, hs.sockets, ht.sockets]
  sendSockets := hs.sendSockets.trans ht.sendSockets.symm
  disconnectedSockets := hs.disconnectedSockets.trans ht.disconnectedSockets.symm
  allocated := hs.allocated.trans ht.allocated.symm
  openFds := hs.openFds.trans ht.openFds.symm
  registered := by
    rw [hs.inv.sound.registered_nil (hs.efd ▸ Int.negSucc_lt_zero 0),
      ht.inv.sound.registered_nil (ht.efd ▸ Int.negSucc_lt_zero 0)]
  fault := hs.inv.sound.noFault.trans ht.inv.sound.noFault.symm
  badClose := hs.inv.sound.noBadClose.trans ht.inv.sound.noBadClose.symm
  memory := by
    intro p hp
    cases p with
    | null => cases hp
    | listener => exact hl
    | client a =>
      have ha : a ∈ s.allocated := of_decide_eq_true hp
      rw [hs.allocated] at ha
      cases ha
  log := ⟨[], (List.append_nil _).symm, (List.append_nil _).symm⟩

theorem destroyed_twin_new (h : s.ListenerFd) (hs : Inv s) (memory : Ptr → Socket) :
    Twin s.destroy.log [] s.destroy (.new memory) := by
  apply Idle.twin hs.destroy (.new memory)
  obtain ⟨t, ht, hd⟩ := h.destroy_eq
  rw [hd, Server.destroySocket_memory, update_self, Server.new]
  dsimp only
  rw [update_self]
  exact similar_destroyed (y := .new _ _) ht le_rfl

theorem destroyed_twin (h : s.ListenerFd) (hs : Inv s) (h' : t.ListenerFd) (ht : Inv t) :
    Twin s.destroy.log t.destroy.log s.destroy t.destroy := by
  apply Idle.twin hs.destroy ht.destroy
  obtain ⟨u, hu, hd⟩ := h.destroy_eq
  obtain ⟨v, hv, hd'⟩ := h'.destroy_eq
  rw [hd, hd', Server.destroySocket_memory, Server.destroySocket_memory, update_self, update_self]
  exact similar_destroyed hu hv

/-- After any history, a destroyed server goes on like a new one: the same calls
and answers of the system give the same events, whatever bytes, descriptors and
clients the memory has seen before. `listen()` on a server in use does the same
as after a `destroy()`. -/
theorem reused_server_like_new (memory memory' : Ptr → Socket) (history later : List Op)
    (env : ListenEnv) :
    Twin (run memory (history ++ [.destroy])).log []
      (run memory (history ++ .destroy :: later)) (run memory' later) ∧
    ((run memory history).listen env).1 = ((Server.new memory').listen env).1 ∧
    Twin (run memory (history ++ [.destroy])).log (run memory' [.destroy]).log
      (run memory (history ++ .listen env :: later)) (run memory' (.listen env :: later)) := by
  have hinv := run_inv memory history
  have hfd := run_listenerFd memory history
  have hsplit : ∀ ops, run memory (history ++ ops) = ops.foldl Server.call (run memory history) :=
    fun ops ↦ List.foldl_append
  rw [hsplit, hsplit, hsplit]
  have hnew := destroyed_twin hfd hinv (run_listenerFd memory' []) (run_inv memory' [])
  obtain ⟨hok, hlisten⟩ := hnew.listen_of hinv.destroy.sockets env
  exact ⟨(destroyed_twin_new hfd hinv memory').calls hinv.destroy.inv later, hok,
    hlisten.calls (hinv.listen env).1 later⟩

end Reuse

end LowLatency.TCPServer
