import LowLatency.TCPServer.Ownership
import LowLatency.TCPSocket.Congruence

namespace LowLatency.TCPServer

open Library.Handles SocketUtils TCPSocket Function

theorem similar_self {x : Socket} (h : x.nextSendValidIndex ≤ tcpBufferSize) : Similar x x :=
  ⟨rfl, rfl, h, fun _ _ ↦ rfl, rfl, fun _ _ ↦ rfl, rfl, rfl⟩

/-- Two servers that differ at most in the events logged before a certain moment
and in memory that no longer holds anything: freed sockets and stale bytes. -/
structure Twin (l l' : List Event) (s t : Server) : Prop where
  efd : s.efd = t.efd
  sockets : s.sockets = t.sockets
  receiveSockets : s.receiveSockets = t.receiveSockets
  sendSockets : s.sendSockets = t.sendSockets
  disconnectedSockets : s.disconnectedSockets = t.disconnectedSockets
  allocated : s.allocated = t.allocated
  openFds : s.openFds = t.openFds
  registered : s.registered = t.registered
  fault : s.fault = t.fault
  badClose : s.badClose = t.badClose
  memory : ∀ p, s.live p = true → Similar (s.memory p) (t.memory p)
  log : ∃ new, s.log = l ++ new ∧ t.log = l' ++ new

namespace Twin

variable {l l' : List Event} {s t : Server} {p : Ptr}

section Memory

theorem live_eq (h : Twin l l' s t) (p : Ptr) : s.live p = t.live p := by
  cases p with
  | null | listener => rfl
  | client a => simp only [Server.live, h.allocated]

theorem newFd_eq (h : Twin l l' s t) (hint : ℕ) : s.newFd hint = t.newFd hint := by
  rw [Server.newFd, Server.newFd, h.openFds]

theorem emit (h : Twin l l' s t) (e : Event) : Twin l l' (s.emit e) (t.emit e) := by
  obtain ⟨new, hs, ht⟩ := h.log
  refine { h with log := ⟨new ++ [e], ?_, ?_⟩ }
  · rw [Server.emit, hs, List.append_assoc]
  · rw [Server.emit, ht, List.append_assoc]

theorem touch (h : Twin l l' s t) (p : Ptr) : Twin l l' (s.touch p) (t.touch p) :=
  { h with
    fault := by
      simp only [Server.touch, h.fault, h.live_eq p] }

theorem set (h : Twin l l' s t) (p : Ptr) {x y : Socket} (hxy : Similar x y) :
    Twin l l' ((Server.place p).set x s) ((Server.place p).set y t) :=
  { h with
    memory := by
      intro q hq
      rcases eq_or_ne q p with rfl | hne
      · rw [Server.place_set_memory, Server.place_set_memory]
        exact hxy
      · rw [Server.place_set_elsewhere s p x hne, Server.place_set_elsewhere t p y hne]
        exact h.memory q hq }

theorem close (h : Twin l l' s t) (fd : ℤ) : Twin l l' (s.close fd) (t.close fd) :=
  { h.emit (.system (.close fd)) with
    openFds := by simp only [Server.close, h.openFds]
    registered := by simp only [Server.close, h.registered]
    badClose := by simp only [Server.close, h.badClose, h.openFds] }

theorem opened (h : Twin l l' s t) (fd : ℤ) : Twin l l' (s.opened fd) (t.opened fd) :=
  { h with openFds := by simp only [Server.opened, h.openFds] }

theorem destroySocket (h : Twin l l' s t) (hp : s.live p = true) :
    Twin l l' (s.destroySocket p) (t.destroySocket p) := by
  have hsim := h.memory p hp
  have ht := h.touch p
  unfold Server.destroySocket
  dsimp only
  have hfd : ((s.touch p).memory p).fd = ((t.touch p).memory p).fd := hsim.fd
  rw [← hfd]
  split
  · exact (ht.close _).set p hsim.destroy
  · exact ht.set p hsim.destroy

theorem connectSocket (h : Twin l l' s t) (hp : s.live p = true) (created : Option ℕ) :
    Twin l l' (s.connectSocket p created) (t.connectSocket p created) := by
  have hd := (h.destroySocket hp).emit (.system .createSocket)
  unfold Server.connectSocket
  dsimp only
  cases created with
  | none => exact hd.set p (.connect _ _ _)
  | some hint =>
    dsimp only
    rw [← hd.newFd_eq hint]
    exact (hd.opened _).set p (.connect _ _ _)

theorem destroySocket_live (s : Server) (p q : Ptr) : (s.destroySocket p).live q = s.live q := by
  unfold Server.destroySocket
  dsimp only
  cases q with
  | null | listener => rfl
  | client a => split <;> rfl

theorem connectSocket_live (s : Server) (p : Ptr) (created : Option ℕ) (q : Ptr) :
    (s.connectSocket p created).live q = s.live q := by
  have hd := destroySocket_live s p q
  unfold Server.connectSocket
  cases created <;> cases q <;> first | rfl | exact hd

theorem deleteSocket (h : Twin l l' s t) (hp : s.live p = true) :
    Twin l l' (s.deleteSocket p) (t.deleteSocket p) := by
  have hd := (h.destroySocket hp).emit (.deleted p)
  unfold Server.deleteSocket
  dsimp only
  cases p with
  | null | listener => exact { hd with fault := rfl }
  | client a =>
    exact { hd with
      allocated := by
        dsimp only
        rw [hd.allocated]
      memory := by
        intro q hq
        apply hd.memory q
        cases q with
        | null => cases hq
        | listener => rfl
        | client b =>
          have hb : b ∈ _ := of_decide_eq_true hq
          exact decide_eq_true (List.mem_filter.1 hb).1 }

theorem deleteSocket_live {q : Ptr} (hq : s.live q = true) (hne : q ≠ p) :
    (s.deleteSocket p).live q = true := by
  have hd : ((s.destroySocket p).emit (.deleted p)).live q = true :=
    (destroySocket_live s p q).trans hq
  unfold Server.deleteSocket
  dsimp only
  cases p with
  | null | listener =>
    cases q with
    | null => cases hq
    | listener => rfl
    | client b => exact hd
  | client a =>
    cases q with
    | null => cases hq
    | listener => rfl
    | client b =>
      have hb : b ∈ _ := of_decide_eq_true hd
      exact decide_eq_true (List.mem_filter.2 ⟨hb, decide_eq_true fun hba ↦ hne (by rw [hba])⟩)

theorem deleteAll (h : Twin l l' s t) {ps : List Ptr} (hps : ps.Nodup)
    (hlive : ∀ p ∈ ps, s.live p = true) :
    Twin l l' (ps.foldl (fun s p ↦ s.deleteSocket p) s)
      (ps.foldl (fun s p ↦ s.deleteSocket p) t) := by
  induction ps generalizing s t with
  | nil => exact h
  | cons p ps ih =>
    obtain ⟨hp, hps⟩ := List.nodup_cons.1 hps
    apply ih (h.deleteSocket (hlive p (by simp))) hps
    intro q hq
    exact deleteSocket_live (hlive q (by simp [hq])) fun hqp ↦ hp (hqp ▸ hq)

end Memory

section Registrations

/-- `epoll_ctl` is reached in both servers or in neither. -/
theorem guard_iff (h : Twin l l' s t) (hp : s.live p = true) :
    (s.efd < 0 ∨ p = .null ∨ (s.memory p).fd < 0) ↔
      (t.efd < 0 ∨ p = .null ∨ (t.memory p).fd < 0) := by
  rw [h.efd, (h.memory p hp).fd]

theorem epollAdd (h : Twin l l' s t) (hp : s.live p = true) (ok : Bool) :
    (s.epollAdd ok p).1 = (t.epollAdd ok p).1 ∧
      Twin l l' (s.epollAdd ok p).2 (t.epollAdd ok p).2 := by
  have he := (h.touch p).emit (.system .epollCtl)
  unfold Server.epollAdd
  simp only [h.guard_iff hp]
  split
  · exact ⟨rfl, h⟩
  · cases ok with
    | false => exact ⟨rfl, he⟩
    | true =>
      refine ⟨rfl, { he with registered := ?_ }⟩
      show s.registered ++ [⟨s.efd, (s.memory p).fd, p⟩] = _
      rw [h.registered, h.efd, (h.memory p hp).fd]
      rfl

theorem epollDel (h : Twin l l' s t) (hp : s.live p = true) (ok : Bool) :
    Twin l l' (s.epollDel ok p).2 (t.epollDel ok p).2 := by
  have he := (h.touch p).emit (.system .epollCtl)
  unfold Server.epollDel
  simp only [h.guard_iff hp]
  split
  · exact h
  · cases ok with
    | false => exact he
    | true =>
      refine { he with registered := ?_ }
      show s.registered.filter (fun r ↦ ¬ (r.epfd = s.efd ∧ r.fd = (s.memory p).fd)) = _
      rw [h.registered, h.efd, (h.memory p hp).fd]
      rfl

theorem removeFromLists (h : Twin l l' s t) (p : Ptr) :
    Twin l l' (s.removeFromLists p) (t.removeFromLists p) :=
  { h with
    sockets := by simp only [Server.removeFromLists, h.sockets]
    receiveSockets := by simp only [Server.removeFromLists, h.receiveSockets]
    sendSockets := by simp only [Server.removeFromLists, h.sendSockets]
    disconnectedSockets := by simp only [Server.removeFromLists, h.disconnectedSockets] }

theorem epollDel_live (s : Server) (ok : Bool) (p q : Ptr) :
    (s.epollDel ok p).2.live q = s.live q := by
  unfold Server.epollDel
  split
  · rfl
  · cases ok <;> cases q <;> rfl

theorem del (h : Twin l l' s t) (hp : s.live p = true) (ok : Bool) :
    Twin l l' (s.del ok p) (t.del ok p) := by
  unfold Server.del
  split
  · exact h
  · apply ((h.epollDel hp ok).removeFromLists p).deleteSocket
    have hlive := epollDel_live s ok p p
    cases p with
    | null | listener => exact hp
    | client a => exact hlive.trans hp

theorem del_live {q : Ptr} (ok : Bool) (hq : s.live q = true) (hne : q ≠ p) :
    (s.del ok p).live q = true := by
  unfold Server.del
  split
  · exact hq
  · refine deleteSocket_live ?_ hne
    have hlive := epollDel_live s ok p q
    cases q with
    | null | listener => exact hq
    | client a => exact hlive.trans hq

end Registrations

section Lifetime

theorem closeEpoll (h : Twin l l' s t) : Twin l l' s.closeEpoll t.closeEpoll := by
  unfold Server.closeEpoll
  rw [← h.efd]
  split
  · exact { h.close s.efd with efd := rfl }
  · exact h

theorem clearLists (h : Twin l l' s t) : Twin l l' s.clearLists t.clearLists :=
  { h with
    sockets := rfl
    receiveSockets := rfl
    sendSockets := rfl
    disconnectedSockets := rfl }

theorem live_of_mem (hs : Inv s) {p : Ptr} (hp : p ∈ s.sockets) : s.live p = true :=
  hs.sound.live (Server.mem_holders hp)

theorem destroy_of (h : Twin l l' s t) (hnodup : s.sockets.Nodup)
    (hlive : ∀ p ∈ s.sockets, s.live p = true) : Twin l l' s.destroy t.destroy := by
  have hall := h.deleteAll hnodup hlive
  unfold Server.destroy
  rw [← h.sockets]
  exact (hall.clearLists.emit .destroyed).closeEpoll.destroySocket rfl

theorem destroy (h : Twin l l' s t) (hs : Inv s) : Twin l l' s.destroy t.destroy :=
  h.destroy_of hs.lists.sockets_nodup fun _ hp ↦ live_of_mem hs hp

theorem destroy_nil (h : Twin l l' s t) (hnil : s.sockets = []) :
    Twin l l' s.destroy t.destroy := by
  apply h.destroy_of
  · rw [hnil]
    exact List.nodup_nil
  · intro p hp
    rw [hnil] at hp
    cases hp

theorem openEpoll (h : Twin l l' s t) (fd : ℤ) :
    Twin l l' { s.opened fd with efd := fd } { t.opened fd with efd := fd } :=
  { h.opened fd with efd := rfl }

/-- What `listen()` does after its `destroy()`. -/
theorem listen_of (h : Twin l l' s.destroy t.destroy) (hnil : s.destroy.sockets = [])
    (env : ListenEnv) :
    (s.listen env).1 = (t.listen env).1 ∧ Twin l l' (s.listen env).2 (t.listen env).2 := by
  have he := h.emit (.system .epollCreate)
  unfold Server.listen
  dsimp only
  cases env.epollCreate with
  | none => exact ⟨rfl, { he with efd := rfl }⟩
  | some hint =>
    dsimp only
    rw [← he.newFd_eq hint]
    have hu := he.openEpoll (Server.newFd (s.destroy.emit (.system .epollCreate)) hint)
    have hunil : ({ (s.destroy.emit (.system .epollCreate)).opened
        (Server.newFd (s.destroy.emit (.system .epollCreate)) hint) with
        efd := Server.newFd (s.destroy.emit (.system .epollCreate)) hint } : Server).sockets = [] :=
      hnil
    generalize ({ (s.destroy.emit (.system .epollCreate)).opened _ with efd := _ } : Server) = u
      at hu hunil
    generalize ({ (t.destroy.emit (.system .epollCreate)).opened _ with efd := _ } : Server) = u'
      at hu
    have hv := hu.connectSocket (p := .listener) rfl env.createSocket
    have hvnil := (Quiet.connectSocket .listener env.createSocket u).sockets.trans hunil
    generalize u.connectSocket .listener env.createSocket = v at hv hvnil
    generalize u'.connectSocket .listener env.createSocket = v' at hv
    rw [← (hv.memory .listener rfl).fd]
    split
    · exact ⟨rfl, hv.destroy_nil hvnil⟩
    · obtain ⟨hok, hw⟩ := hv.epollAdd (p := .listener) rfl env.epollCtl
      have hwnil := (Quiet.epollAdd env.epollCtl .listener v).sockets.trans hvnil
      rw [← hok]
      cases (v.epollAdd env.epollCtl .listener).1 with
      | false => exact ⟨rfl, hw.destroy_nil hwnil⟩
      | true => exact ⟨rfl, hw⟩

theorem listen (h : Twin l l' s t) (hs : Inv s) (env : ListenEnv) :
    (s.listen env).1 = (t.listen env).1 ∧ Twin l l' (s.listen env).2 (t.listen env).2 :=
  listen_of (h.destroy hs) hs.destroy.sockets env

end Lifetime

section Poll

theorem choose {c : Prop} [Decidable c] {s' t' : Server} (h : Twin l l' s t)
    (h' : Twin l l' s' t') : Twin l l' (if c then s else s') (if c then t else t') := by
  split
  · exact h
  · exact h'

theorem markDisconnected (h : Twin l l' s t) (p : Ptr) :
    Twin l l' { s with disconnectedSockets := addUnique s.disconnectedSockets p }
      { t with disconnectedSockets := addUnique t.disconnectedSockets p } :=
  { h with disconnectedSockets := by rw [h.disconnectedSockets] }

theorem dispatch (h : Twin l l' s t) (b : Bool) (event : EpollEvent) :
    (Server.dispatch (b, s) event).1 = (Server.dispatch (b, t) event).1 ∧
      Twin l l' (Server.dispatch (b, s) event).2 (Server.dispatch (b, t) event).2 := by
  unfold Server.dispatch
  dsimp only
  split
  · exact ⟨rfl, h⟩
  split
  · split
    · exact ⟨rfl, (h.emit (.reported event.ptr)).markDisconnected event.ptr⟩
    · exact ⟨rfl, h⟩
  split
  · exact ⟨rfl, h⟩
  have hread : Twin l l' { s with receiveSockets := addUnique s.receiveSockets event.ptr }
      { t with receiveSockets := addUnique t.receiveSockets event.ptr } :=
    { h with receiveSockets := by rw [h.receiveSockets] }
  have hwrite := (hread.choose h (c := event.readable = true)).emit .listenerWritable
  have hlast := hwrite.choose (hread.choose h (c := event.readable = true))
    (c := (event.writable && event.ptr = .listener) = true)
  split
  · exact ⟨rfl, { hlast with sendSockets := congrArg (addUnique · event.ptr) hlast.sendSockets }⟩
  · exact ⟨rfl, hlast⟩

theorem dispatchAll (h : Twin l l' s t) (b : Bool) (events : List EpollEvent) :
    (events.foldl Server.dispatch (b, s)).1 = (events.foldl Server.dispatch (b, t)).1 ∧
      Twin l l' (events.foldl Server.dispatch (b, s)).2
        (events.foldl Server.dispatch (b, t)).2 := by
  induction events generalizing s t b with
  | nil => exact ⟨rfl, h⟩
  | cons event events ih =>
    obtain ⟨hb, hd⟩ := h.dispatch b event
    rw [List.foldl_cons, List.foldl_cons]
    generalize Server.dispatch (b, s) event = r at hb hd
    generalize Server.dispatch (b, t) event = r' at hb hd
    obtain ⟨b₁, s₁⟩ := r
    obtain ⟨b₂, s₂⟩ := r'
    obtain rfl : b₁ = b₂ := hb
    exact ih hd b₁

theorem epollAdd_live (s : Server) (ok : Bool) (p q : Ptr) :
    (s.epollAdd ok p).2.live q = s.live q := by
  unfold Server.epollAdd
  split
  · rfl
  · cases ok <;> cases q <;> rfl

theorem addClient (h : Twin l l' s t) (hp : s.live p = true) (ok : Bool) :
    Twin l l' (s.addClient ok p) (t.addClient ok p) := by
  obtain ⟨hok, ha⟩ := h.epollAdd hp ok
  unfold Server.addClient
  dsimp only
  rw [← hok]
  split
  · exact ha.deleteSocket ((epollAdd_live s ok p p).trans hp)
  · have he := ha.emit (.accepted p)
    exact { he with
      sockets := by simp only [ha.sockets]
      receiveSockets := by simp only [ha.receiveSockets] }

theorem allocate (h : Twin l l' s t) (a : ℕ) {x : Socket} (hx : Similar x x) :
    Twin l l'
      { s with memory := update s.memory (.client a) x, allocated := a :: s.allocated }
      { t with memory := update t.memory (.client a) x, allocated := a :: s.allocated } :=
  { h with
    allocated := rfl
    memory := by
      intro q hq
      rcases eq_or_ne q (.client a) with rfl | hne
      · simp only [update_self]
        exact hx
      · simp only [update_of_ne hne]
        apply h.memory q
        cases q with
        | null => cases hq
        | listener => rfl
        | client b =>
          have hb : b ∈ a :: s.allocated := of_decide_eq_true hq
          exact decide_eq_true ((List.mem_cons.1 hb).resolve_left fun hba ↦ hne (by rw [hba])) }

theorem acceptOne (h : Twin l l' s t) (a : Accepted) :
    Twin l l' (s.acceptOne a) (t.acceptOne a) := by
  have hfd := h.newFd_eq a.fd
  unfold Server.acceptOne
  dsimp only
  rw [← hfd]
  have he := ((h.opened (s.newFd a.fd)).emit (.system .accept)).emit (.system .configure)
  split
  · exact he.close _
  · rw [← he.allocated]
    exact (he.allocate _ (similar_self (Nat.zero_le _))).addClient (by simp [Server.live]) _

theorem acceptLoop (h : Twin l l' s t) (accepts : List Accepted) (ended : Errno) :
    Twin l l' (s.acceptLoop accepts ended) (t.acceptLoop accepts ended) := by
  have hall : Twin l l' (accepts.foldl Server.acceptOne s) (accepts.foldl Server.acceptOne t) := by
    induction accepts generalizing s t with
    | nil => exact h
    | cons a accepts ih => exact ih (h.acceptOne a)
  unfold Server.acceptLoop
  rw [ite_self, ite_self]
  exact hall.emit (.system .accept)

theorem delAll (h : Twin l l' s t) (ok : Ptr → Bool) {ps : List Ptr} (hps : ps.Nodup)
    (hlive : ∀ p ∈ ps, s.live p = true) :
    Twin l l' (ps.foldl (fun s p ↦ s.del (ok p) p) s) (ps.foldl (fun s p ↦ s.del (ok p) p) t) := by
  induction ps generalizing s t with
  | nil => exact h
  | cons p ps ih =>
    obtain ⟨hp, hps⟩ := List.nodup_cons.1 hps
    apply ih (h.del (hlive p (by simp)) (ok p)) hps
    intro q hq
    exact del_live (ok p) (hlive q (by simp [hq])) fun hqp ↦ hp (hqp ▸ hq)

theorem deleteDisconnected (h : Twin l l' s t) (hs : Inv s) (env : PollEnv) :
    Twin l l' (s.deleteDisconnected env) (t.deleteDisconnected env) := by
  have he : Twin l l' { s.emit .polled with disconnectedSockets := [] }
      { t.emit .polled with disconnectedSockets := [] } :=
    { h.emit .polled with disconnectedSockets := rfl }
  unfold Server.deleteDisconnected
  dsimp only
  rw [← h.disconnectedSockets]
  apply he.delAll env.epollCtl hs.lists.disconnected_nodup
  intro p hp
  exact hs.sound.live (hs.lists.disconnected_known p hp).holder

theorem reportable_eq (h : Twin l l' s t) (events : List EpollEvent) :
    s.reportable events = t.reportable events := by
  rw [Server.reportable, Server.reportable, h.registered, h.efd]

theorem poll (h : Twin l l' s t) (hs : Inv s) (env : PollEnv) :
    Twin l l' (s.poll env) (t.poll env) := by
  have hd := (h.deleteDisconnected hs env).emit (.system .epollWait)
  unfold Server.poll
  rw [← h.efd]
  split
  · exact h
  cases env.wait with
  | none => exact hd
  | some events =>
    dsimp only
    rw [← hd.reportable_eq events]
    obtain ⟨hb, hall⟩ := hd.dispatchAll false
      (((s.deleteDisconnected env).emit (.system .epollWait)).reportable events)
    rw [← hb]
    exact (hall.acceptLoop env.accepts env.ended).choose hall

end Poll

section Rounds

def Owned (s : Server) : Prop := ∀ q ∈ s.sockets, s.live q = true

/-- From `s` to `t` no client comes or goes. -/
structure Steady (s t : Server) : Prop where
  sockets : t.sockets = s.sockets
  live : ∀ q, t.live q = s.live q

namespace Steady

variable {u : Server}

theorem owned (h : Steady s t) (ho : Owned s) : Owned t := by
  intro q hq
  rw [h.sockets] at hq
  rw [h.live]
  exact ho q hq

theorem refl (s : Server) : Steady s s := ⟨rfl, fun _ ↦ rfl⟩

theorem trans (h : Steady s t) (h' : Steady t u) : Steady s u :=
  ⟨h'.sockets.trans h.sockets, fun q ↦ (h'.live q).trans (h.live q)⟩

theorem touch (s : Server) (p : Ptr) : Steady s (s.touch p) := ⟨rfl, fun q ↦ by cases q <;> rfl⟩

theorem emit (s : Server) (e : Event) : Steady s (s.emit e) := ⟨rfl, fun q ↦ by cases q <;> rfl⟩

theorem set (s : Server) (p : Ptr) (x : Socket) : Steady s ((Server.place p).set x s) :=
  ⟨rfl, fun q ↦ by cases q <;> rfl⟩

theorem runOp (s : Server) (action : ℕ × SocketOp) : Steady s (s.runOp action) := by
  refine ⟨(Quiet.runOp s action).sockets, fun q ↦ ?_⟩
  rcases s.runOp_cases action with h | ⟨p, -, ⟨x, -, h⟩ | h | ⟨created, h⟩⟩ <;> rw [h]
  · cases q <;> rfl
  · exact destroySocket_live s p q
  · exact connectSocket_live s p created q

theorem runOps (s : Server) (ops : List (ℕ × SocketOp)) : Steady s (s.runOps ops) := by
  induction ops generalizing s with
  | nil => exact refl s
  | cons op ops ih => exact (runOp s op).trans (ih _)

theorem recvCallback (s : Server) (p : Ptr) (env : RoundEnv) :
    Steady s (s.recvCallback env p) := by
  unfold Server.recvCallback
  dsimp only
  split
  · exact (emit s _).trans (set _ p _)
  · exact (emit s _).trans (runOps _ _)

end Steady

theorem runOp (h : Twin l l' s t) (ho : Owned s) (action : ℕ × SocketOp) :
    Twin l l' (s.runOp action) (t.runOp action) := by
  obtain ⟨a, op⟩ := action
  unfold Server.runOp
  dsimp only
  rw [← h.sockets]
  split
  next hp =>
    have hlive := ho _ hp
    have hsim := h.memory _ hlive
    cases op with
    | consume rcvBuffer index =>
      exact (h.touch _).set _ { hsim with rcvIndex := rfl, rcvBytes := fun _ _ ↦ rfl }
    | send data => exact (h.touch _).set _ (hsim.send data).2
    | destroy => exact h.destroySocket hlive
    | connect created => exact h.connectSocket hlive created
  next => exact h

theorem runOps (h : Twin l l' s t) (ho : Owned s) (ops : List (ℕ × SocketOp)) :
    Twin l l' (s.runOps ops) (t.runOps ops) := by
  induction ops generalizing s t with
  | nil => exact h
  | cons op ops ih => exact ih (h.runOp ho op) ((Steady.runOp s op).owned ho)

theorem recvCallback (h : Twin l l' s t) (ho : Owned s) (hp : s.live p = true) (env : RoundEnv) :
    Twin l l' (s.recvCallback env p) (t.recvCallback env p) := by
  have he := h.emit (.recvCallback p)
  unfold Server.recvCallback
  dsimp only
  split
  · exact he.set p { h.memory p hp with rcvIndex := rfl, rcvBytes := nofun }
  · exact he.runOps ho _

theorem callSocket (h : Twin l l' s t) (ho : Owned s) (hp : s.live p = true) (env : RoundEnv) :
    (s.callSocket env p).1 = (t.callSocket env p).1 ∧
      Twin l l' (s.callSocket env p).2 (t.callSocket env p).2 ∧
      (s.callSocket env p).2.live p = true := by
  obtain ⟨hrecord, hnext⟩ := sendAndRecv_congr similar_respected (Server.place p) (Server.place p)
    (env.io p) (fun _ ↦ Server.recvCallback env p) (fun _ ↦ Server.recvCallback env p)
    (fun s t ↦ Twin l l' s t ∧ Owned s ∧ s.live p = true)
    (fun s t hR ↦ hR.1.memory p hR.2.2)
    (fun s t x y hR hxy ↦ ⟨hR.1.set p hxy, (Steady.set s p x).owned hR.2.1, hR.2.2⟩)
    (fun _ s t hR ↦ ⟨hR.1.recvCallback hR.2.1 hR.2.2 env,
      (Steady.recvCallback s p env).owned hR.2.1,
      ((Steady.recvCallback s p env).live p).trans hR.2.2⟩)
    ⟨h.touch p, (Steady.touch s p).owned ho, ((Steady.touch s p).live p).trans hp⟩
  exact ⟨hrecord, hnext.1, hnext.2.2⟩

theorem flagged_eq (h : Twin l l' s t) (hp : s.live p = true) : s.flagged p = t.flagged p := by
  rw [Server.flagged, Server.flagged, (h.memory p hp).recvFlag, (h.memory p hp).sendFlag]

theorem serve (h : Twin l l' s t) (hs : Inv s) (hp : s.known p) (env : RoundEnv) :
    (s.serve env p).1 = (t.serve env p).1 ∧ Twin l l' (s.serve env p).2 (t.serve env p).2 := by
  have ho : Owned s := fun q hq ↦ live_of_mem hs hq
  obtain ⟨hrecord, hc, hlive⟩ := h.callSocket ho (hs.sound.live hp.holder) env
  unfold Server.serve
  dsimp only
  rw [← hrecord, ← hc.flagged_eq hlive]
  have he := hc.emit (.served p (s.callSocket env p).1 ((s.callSocket env p).2.flagged p))
  refine ⟨rfl, { he with disconnectedSockets := ?_ }⟩
  simp only [he.disconnectedSockets]

theorem receiveAll (h : Twin l l' s t) (hs : Inv s) (env : RoundEnv) (ps : List Ptr)
    (hps : ∀ p ∈ ps, s.known p) (b : Bool) :
    (ps.foldl (Server.receiveLoop env) (b, s)).1 = (ps.foldl (Server.receiveLoop env) (b, t)).1 ∧
      Twin l l' (ps.foldl (Server.receiveLoop env) (b, s)).2
        (ps.foldl (Server.receiveLoop env) (b, t)).2 := by
  induction ps generalizing s t b with
  | nil => exact ⟨rfl, h⟩
  | cons p ps ih =>
    have hp := hps p (by simp)
    have hr := hs.serveRound hp env
    obtain ⟨hb, hserve⟩ := h.serve hs hp env
    have ht : Server.receiveLoop env (b, t) p = ((t.serve env p).1 || b, (t.serve env p).2) :=
      if_neg (hs.ne_null hp)
    rw [List.foldl_cons, List.foldl_cons, hs.receiveLoop_eq hp, ht, ← hb]
    exact ih hserve hr.inv (fun q hq ↦ hr.known (hps q (by simp [hq]))) _

theorem sendAll (h : Twin l l' s t) (hs : Inv s) (env : RoundEnv) (ps : List Ptr)
    (hps : ∀ p ∈ ps, s.known p) :
    Twin l l' (ps.foldl (Server.sendLoop env) s) (ps.foldl (Server.sendLoop env) t) := by
  induction ps generalizing s t with
  | nil => exact h
  | cons p ps ih =>
    have hp := hps p (by simp)
    have hrest : ∀ q ∈ ps, s.known q := fun q hq ↦ hps q (by simp [hq])
    have ht : Server.sendLoop env t p = if p ∈ s.sockets then t else (t.serve env p).2 := by
      rw [Server.sendLoop, if_neg (hs.ne_null hp), ← h.receiveSockets, hs.lists.receive_eq]
    rw [List.foldl_cons, List.foldl_cons, hs.sendLoop_eq hp, ht]
    split
    · exact ih h hs hrest
    · have hr := hs.serveRound hp env
      exact ih (h.serve hs hp env).2 hr.inv fun q hq ↦ hr.known (hrest q hq)

theorem sendAndRecv (h : Twin l l' s t) (hs : Inv s) (env : RoundEnv) :
    Twin l l' (s.sendAndRecv env) (t.sendAndRecv env) := by
  have hclients : ∀ p ∈ s.receiveSockets, s.known p := fun p hp ↦ .inl (hs.lists.receive_eq ▸ hp)
  obtain ⟨hb, hloop⟩ := h.receiveAll hs env s.receiveSockets hclients false
  obtain ⟨received, -, hround⟩ := hs.receiveRound env s.receiveSockets hclients false
  unfold Server.sendAndRecv
  rw [← h.efd, ← h.receiveSockets]
  split
  · exact h
  dsimp only
  rw [← hb]
  generalize s.receiveSockets.foldl (Server.receiveLoop env) (false, s) = r at hb hloop hround
  generalize s.receiveSockets.foldl (Server.receiveLoop env) (false, t) = r' at hb hloop
  have hfin : Inv (if r.1 then (r.2.emit .recvFinished).runOps env.finished else r.2) := by
    split
    · exact (hround.inv.emit (e := .recvFinished) trivial).runOps env.finished
    · exact hround.inv
  have ho : Owned (r.2.emit .recvFinished) := fun q hq ↦ live_of_mem hround.inv hq
  have hnext := ((hloop.emit .recvFinished).runOps ho env.finished).choose hloop (c := r.1 = true)
  rw [← hnext.sendSockets]
  exact hnext.sendAll hfin env _ hfin.lists.send_known

theorem call (h : Twin l l' s t) (hs : Inv s) (op : Op) : Twin l l' (s.call op) (t.call op) := by
  cases op with
  | listen env => exact (h.listen hs env).2
  | poll env => exact h.poll hs env
  | sendAndRecv env => exact h.sendAndRecv hs env
  | destroy => exact h.destroy hs

theorem calls (h : Twin l l' s t) (hs : Inv s) (ops : List Op) :
    Twin l l' (ops.foldl Server.call s) (ops.foldl Server.call t) := by
  induction ops generalizing s t with
  | nil => exact h
  | cons op ops ih => exact ih (h.call hs op) (hs.call op)

end Rounds

end Twin

end LowLatency.TCPServer
