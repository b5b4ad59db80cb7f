import LowLatency.TCPServer.Poll
import LowLatency.TCPServer.Rounds

namespace LowLatency.TCPServer

open Library.Handles SocketUtils TCPSocket Function

section Lifetime

variable {s : Server}

theorem Sound.deleteAll {l : List Ptr} (hl : l.Nodup) (h : Sound {p | p ∈ l} s.resources) :
    Sound ∅ (l.foldl (fun s p ↦ s.deleteSocket p) s).resources := by
  induction l generalizing s with
  | nil => simpa using h
  | cons p l ih =>
    obtain ⟨hp, hl⟩ := List.nodup_cons.1 hl
    refine ih hl ?_
    have hset : {q | q ∈ p :: l} \ {p} = {q | q ∈ l} := by
      ext q
      simp only [Set.mem_sdiff, Set.mem_ofPred_eq, List.mem_cons, Set.mem_singleton_iff]
      constructor
      · rintro ⟨rfl | hq, hne⟩
        · exact absurd rfl hne
        · exact hq
      · exact fun hq ↦ ⟨.inr hq, fun hqp ↦ hp (hqp ▸ hq)⟩
    exact hset ▸ h.deleteSocket (List.mem_cons_self ..)

theorem Quiet.deleteAll (l : List Ptr) (s : Server) :
    Quiet s (l.foldl (fun s p ↦ s.deleteSocket p) s) := by
  induction l generalizing s with
  | nil => exact .refl s
  | cons p l ih => exact (Quiet.deleteSocket p s).trans (ih _)

/-- The server owns nothing. -/
structure Idle (s : Server) : Prop where
  inv : Inv s
  efd : s.efd = -1
  openFds : s.openFds = []
  sockets : s.sockets = []
  sendSockets : s.sendSockets = []
  disconnectedSockets : s.disconnectedSockets = []

theorem Idle.of_lists (hs : Sound ∅ s.resources) (hefd : s.efd = -1)
    (hl : (s.memory .listener).fd < 0) (h₁ : s.sockets = []) (h₂ : s.receiveSockets = [])
    (h₃ : s.sendSockets = []) (h₄ : s.disconnectedSockets = []) (hm : ∀ p, marked p s.log = false) :
    Idle s := by
  have hmembers : s.members = ∅ := by simp [Server.members, h₁]
  refine ⟨⟨hmembers ▸ hs, ?_⟩, hefd, ?_, h₁, h₃, h₄⟩
  · refine ⟨by rw [h₁, h₂], ?_, ?_, ?_, ?_, ?_, ?_, ?_⟩
    all_goals simp [h₁, h₃, h₄, hm]
  · apply List.eq_nil_iff_forall_not_mem.2
    intro x hx
    obtain ⟨h0, i, hi, rfl⟩ := (hs.kept.open_iff x).1 hx
    cases i with
    | none => simp [hefd] at h0
    | some p =>
      rcases some_mem_holders.1 hi with rfl | hp
      · exact absurd h0 (not_le.2 hl)
      · exact hp

theorem closeEpoll_quiet (s : Server) : Quiet s { s.closeEpoll with efd := s.efd } := by
  unfold Server.closeEpoll
  split
  · exact .trans (.close s.efd s) (.of_eq rfl)
  · exact .of_eq rfl

theorem Inv.destroy (h : Inv s) : Idle s.destroy := by
  have hs := h.sound.deleteAll h.lists.sockets_nodup
  unfold Server.destroy
  generalize s.sockets.foldl (fun s p ↦ s.deleteSocket p) s = t at hs
  dsimp only
  generalize hu : t.clearLists.emit .destroyed = u
  have hsu : Sound ∅ u.resources := hu ▸ hs
  obtain ⟨hsv, hefd⟩ := hsu.closeEpoll
  have hqv := closeEpoll_quiet u
  generalize u.closeEpoll = v at hsv hefd hqv
  have hd := Quiet.destroySocket .listener v
  obtain ⟨new, hlog, hnew⟩ := hqv.log
  obtain ⟨new', hlog', hnew'⟩ := hd.log
  refine .of_lists (hsv.destroySocket (some_mem_holders.2 (.inl rfl))) (hd.efd.trans hefd)
    (v.destroySocket_fd .listener) ?_ ?_ ?_ ?_ ?_
  · exact hd.sockets.trans (hqv.sockets.trans (hu ▸ rfl))
  · exact hd.receiveSockets.trans (hqv.receiveSockets.trans (hu ▸ rfl))
  · exact hd.sendSockets.trans (hqv.sendSockets.trans (hu ▸ rfl))
  · exact hd.disconnectedSockets.trans (hqv.disconnectedSockets.trans (hu ▸ rfl))
  · intro p
    rw [hlog', marked_append p _ fun e he ↦ (hnew' e he).passive,
      show v.log = u.log ++ new from hlog, marked_append p _ fun e he ↦ (hnew e he).passive, ← hu]
    exact marked_concat p t.log .destroyed

theorem Idle.emit (h : Idle s) {e : Event} (he : e.passive) : Idle (s.emit e) :=
  ⟨h.inv.emit he, h.efd, h.openFds, h.sockets, h.sendSockets, h.disconnectedSockets⟩

theorem Idle.openEpoll (h : Idle s) (hint : ℕ) :
    Inv { s.opened (s.newFd hint) with efd := s.newFd hint } :=
  ⟨h.inv.sound.openEpoll (h.efd ▸ Int.negSucc_lt_zero 0) hint, h.inv.lists.receive_eq,
    h.inv.lists.sockets_nodup, h.inv.lists.send_nodup, h.inv.lists.disconnected_nodup,
    h.inv.lists.send_known, h.inv.lists.disconnected_known, h.inv.lists.marked_iff,
    h.inv.lists.order⟩

theorem Inv.listen (h : Inv s) (env : ListenEnv) :
    Inv (s.listen env).2 ∧ (s.listen env).2.sockets = [] ∧
      ((s.listen env).1 = false → Idle (s.listen env).2) := by
  have hidle : Idle (s.destroy.emit (.system .epollCreate)) := h.destroy.emit trivial
  unfold Server.listen
  generalize s.destroy.emit (.system .epollCreate) = t at hidle
  cases env.epollCreate with
  | none =>
    have heq : { t with efd := -1 } = t := by rw [← hidle.efd]
    dsimp only
    rw [heq]
    exact ⟨hidle.inv, hidle.sockets, fun _ ↦ hidle⟩
  | some hint =>
    have hu := hidle.openEpoll hint
    have hnil : { t.opened (t.newFd hint) with efd := t.newFd hint }.sockets = [] := hidle.sockets
    dsimp only
    generalize { t.opened (t.newFd hint) with efd := t.newFd hint } = u at hu hnil
    have hl : some Ptr.listener ∈ holders u.members := some_mem_holders.2 (.inl rfl)
    have hq := Quiet.connectSocket .listener env.createSocket u
    have hv : Inv (u.connectSocket .listener env.createSocket) :=
      ⟨hq.members ▸ hu.sound.connectSocket hl env.createSocket, hu.lists.quiet hq⟩
    generalize u.connectSocket .listener env.createSocket = v at hv hq
    split
    · exact ⟨hv.destroy.inv, hv.destroy.sockets, fun _ ↦ hv.destroy⟩
    · have hq' := Quiet.epollAdd env.epollCtl .listener v
      have hw : Inv (v.epollAdd env.epollCtl .listener).2 :=
        ⟨hq'.members ▸ hv.sound.epollAdd (some_mem_holders.2 (.inl rfl)) env.epollCtl,
          hv.lists.quiet hq'⟩
      generalize v.epollAdd env.epollCtl .listener = r at hw hq'
      obtain ⟨ok, w⟩ := r
      cases ok with
      | false => exact ⟨hw.destroy.inv, hw.destroy.sockets, fun _ ↦ hw.destroy⟩
      | true => exact ⟨hw, hq'.sockets.trans (hq.sockets.trans hnil), by nofun⟩

theorem Idle.new (memory : Ptr → Socket) : Idle (.new memory) := by
  have hl : ((Server.new memory).memory .listener).fd < 0 := by
    simp [Server.new, Socket.new]
  refine .of_lists ⟨by simp [Server.new], by simp [Server.new], .nil ?_, rfl, rfl,
    le_rfl⟩ rfl hl rfl rfl rfl rfl fun _ ↦ rfl
  intro i hi
  cases i with
  | none => exact Int.negSucc_lt_zero 0
  | some p =>
    rcases some_mem_holders.1 hi with rfl | hp
    · exact hl
    · exact hp.elim

end Lifetime

section Run

theorem Inv.call {s : Server} (h : Inv s) (op : Op) : Inv (s.call op) := by
  cases op with
  | listen env => exact (h.listen env).1
  | poll env => exact h.poll env
  | sendAndRecv env => exact h.sendAndRecv env
  | destroy => exact h.destroy.inv

theorem Inv.calls {s : Server} (h : Inv s) (ops : List Op) : Inv (ops.foldl Server.call s) := by
  induction ops generalizing s with
  | nil => exact h
  | cons op ops ih => exact ih (h.call op)

theorem run_inv (memory : Ptr → Socket) (ops : List Op) : Inv (run memory ops) :=
  (Idle.new memory).inv.calls ops

theorem Inv.listener_notMem {s : Server} (h : Inv s) : Ptr.listener ∉ s.sockets := by
  intro hmem
  obtain ⟨a, -, heq⟩ := (h.sound.owned_iff .listener).1 hmem
  cases heq

/-- The lists, the registrations and the client memory agree in every state of
a run, so that no deleted socket is ever used. The listener gets into the send
list only if epoll reports it writable, which its registration does not ask
for. -/
theorem run_ownership (memory : Ptr → Socket) (ops : List Op) :
    (run memory ops).sockets.Nodup ∧
    (run memory ops).receiveSockets = (run memory ops).sockets ∧
    (run memory ops).sendSockets.Nodup ∧
    (run memory ops).disconnectedSockets.Nodup ∧
    (∀ p, p ∈ (run memory ops).sendSockets ∨ p ∈ (run memory ops).disconnectedSockets →
      p ∈ (run memory ops).sockets ∨
        p = .listener ∧ .listenerWritable ∈ (run memory ops).log) ∧
    .listener ∉ (run memory ops).sockets ∧
    (∀ e ∈ (run memory ops).registered, e.epfd = (run memory ops).efd ∧
      (e.ptr = .listener ∨ e.ptr ∈ (run memory ops).sockets)) ∧
    (∀ p ∈ (run memory ops).sockets, ∃ a ∈ (run memory ops).allocated, p = .client a) ∧
    (run memory ops).fault = false := by
  have h := run_inv memory ops
  generalize run memory ops = s at h
  refine ⟨h.lists.sockets_nodup, h.lists.receive_eq, h.lists.send_nodup,
    h.lists.disconnected_nodup, ?_, h.listener_notMem, ?_,
    fun p hp ↦ (h.sound.owned_iff p).1 hp, h.sound.noFault⟩
  · rintro p (hp | hp)
    · exact h.lists.send_known p hp
    · exact h.lists.disconnected_known p hp
  · intro e he
    exact ⟨(h.sound.registered e he).2.1, (h.sound.registered e he).2.2.2.2⟩

def blank : Ptr → Socket := fun _ ↦ .new (fun _ ↦ 0) (fun _ ↦ 0)

def listening : Op := .listen ⟨some 3, some 4, true⟩

def reporting (events : List EpollEvent) (accepts : List Accepted) : Op :=
  .poll ⟨fun _ ↦ true, some events, accepts, .eagain⟩

def connection (fd address : ℕ) : Accepted :=
  ⟨fd, ⟨some true, true⟩, true, address, fun _ ↦ 0, fun _ ↦ 0, true⟩

def accepting (accepts : List Accepted) : Op :=
  reporting [⟨.listener, false, false, true, false⟩] accepts

theorem run_listener_in_sendSockets :
    .listener ∈ (run blank [listening,
      reporting [⟨.listener, false, false, false, true⟩] []]).sendSockets ∧
    .listener ∉ (run blank [listening,
      reporting [⟨.listener, false, false, false, true⟩] []]).sockets := by
  decide

def Server.heldFds (s : Server) : List ℤ :=
  (s.efd :: (s.memory .listener).fd :: s.sockets.map fun p ↦ (s.memory p).fd).filter (0 ≤ ·)

/-- Nothing is open or listed, and the server does nothing until it listens. -/
structure Released (s : Server) : Prop where
  openFds : s.openFds = []
  efd : s.efd = -1
  sockets : s.sockets = []
  receiveSockets : s.receiveSockets = []
  sendSockets : s.sendSockets = []
  disconnectedSockets : s.disconnectedSockets = []
  poll : ∀ env, s.poll env = s
  sendAndRecv : ∀ env, s.sendAndRecv env = s

theorem Idle.released {s : Server} (h : Idle s) : Released s := by
  have hefd : s.efd < 0 := h.efd ▸ Int.negSucc_lt_zero 0
  exact ⟨h.openFds, h.efd, h.sockets, h.inv.lists.receive_eq.trans h.sockets, h.sendSockets,
    h.disconnectedSockets, fun env ↦ if_pos hefd, fun env ↦ if_pos hefd⟩

theorem Inv.heldFds {s : Server} (h : Inv s) :
    (∀ x, x ∈ s.openFds ↔ x ∈ s.heldFds) ∧ s.heldFds.Nodup := by
  have hlist : s.heldFds =
      ((none :: some .listener :: s.sockets.map some).map s.resources.fd).filter (0 ≤ ·) := by
    simp [Server.heldFds, Function.comp_def]
  have hlistener := h.listener_notMem
  rw [hlist]
  refine h.sound.kept.enumerate ?_ ?_
  · simp [hlistener, List.nodup_map_iff (Option.some_injective Ptr), h.lists.sockets_nodup]
  · intro i
    cases i with
    | none => simp [none_mem_holders]
    | some p => simp [some_mem_holders, Server.members]

/-- In every state of a run the open descriptors are those that the server,
its listener and its clients keep, and no close ever missed. A server that was
destroyed or failed to listen keeps none and does nothing. -/
theorem run_conserves_descriptors (memory : Ptr → Socket) (ops : List Op) :
    (∀ x, x ∈ (run memory ops).openFds ↔ x ∈ (run memory ops).heldFds) ∧
    (run memory ops).heldFds.Nodup ∧
    (run memory ops).badClose = false ∧
    Released (run memory ops).destroy ∧
    ∀ env, ((run memory ops).listen env).1 = false → Released ((run memory ops).listen env).2 := by
  have h := run_inv memory ops
  exact ⟨h.heldFds.1, h.heldFds.2, h.sound.noBadClose, h.destroy.released,
    fun env hfail ↦ ((h.listen env).2.2 hfail).released⟩

end Run

end LowLatency.TCPServer
