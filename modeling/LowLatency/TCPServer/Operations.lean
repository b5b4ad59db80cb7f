import LowLatency.TCPServer.Resources
import LowLatency.TCPSocket.Buffers
import Mathlib.Order.BooleanAlgebra.Set

namespace LowLatency.TCPServer

open Library.Handles SocketUtils TCPSocket Function

theorem Server.runOp_cases (s : Server) (action : ℕ × SocketOp) :
    s.runOp action = s ∨ ∃ p ∈ s.sockets,
      (∃ x : Socket, x.fd = (s.memory p).fd ∧ s.runOp action = (place p).set x (s.touch p)) ∨
      s.runOp action = s.destroySocket p ∨
      ∃ created, s.runOp action = s.connectSocket p created := by
  obtain ⟨address, op⟩ := action
  by_cases hp : Ptr.client address ∈ s.sockets
  · refine .inr ⟨_, hp, ?_⟩
    cases op with
    | consume rcvBuffer index =>
      exact .inl ⟨{ s.memory (.client address) with
        rcvBuffer := rcvBuffer, nextRcvValidIndex := index }, rfl, by simp [runOp, hp]⟩
    | send data => exact .inl ⟨_, (send_frame _ data).1.fd, by simp [runOp, hp]⟩
    | destroy => exact .inr (.inl (by simp [runOp, hp]))
    | connect created => exact .inr (.inr ⟨created, by simp [runOp, hp]⟩)
  · exact .inl (by simp [runOp, hp])

def Event.silent : Event → Prop
  | .system _ => True
  | .deleted _ => True
  | _ => False

/-- From `s` to `t` the lists stay as they are and nothing but silent events
is logged. -/
structure Quiet (s t : Server) : Prop where
  efd : t.efd = s.efd
  sockets : t.sockets = s.sockets
  receiveSockets : t.receiveSockets = s.receiveSockets
  sendSockets : t.sendSockets = s.sendSockets
  disconnectedSockets : t.disconnectedSockets = s.disconnectedSockets
  log : ∃ new, t.log = s.log ++ new ∧ ∀ e ∈ new, e.silent

namespace Quiet

variable {s t u : Server}

theorem of_eq (h : (t.efd, t.sockets, t.receiveSockets, t.sendSockets, t.disconnectedSockets,
    t.log) = (s.efd, s.sockets, s.receiveSockets, s.sendSockets, s.disconnectedSockets, s.log)) :
    Quiet s t := by
  simp only [Prod.mk.injEq] at h
  obtain ⟨h₁, h₂, h₃, h₄, h₅, h₆⟩ := h
  exact ⟨h₁, h₂, h₃, h₄, h₅, [], by rw [h₆, List.append_nil], by nofun⟩

theorem refl (s : Server) : Quiet s s := of_eq rfl

theorem trans (h : Quiet s t) (h' : Quiet t u) : Quiet s u := by
  obtain ⟨new, hlog, hnew⟩ := h.log
  obtain ⟨new', hlog', hnew'⟩ := h'.log
  refine ⟨h'.efd.trans h.efd, h'.sockets.trans h.sockets,
    h'.receiveSockets.trans h.receiveSockets, h'.sendSockets.trans h.sendSockets,
    h'.disconnectedSockets.trans h.disconnectedSockets, new ++ new', ?_, ?_⟩
  · rw [hlog', hlog, List.append_assoc]
  · intro e he
    exact (List.mem_append.1 he).elim (hnew e) (hnew' e)

theorem emit (e : Event) (he : e.silent) (s : Server) : Quiet s (s.emit e) :=
  ⟨rfl, rfl, rfl, rfl, rfl, [e], rfl, fun _ h ↦ List.mem_singleton.1 h ▸ he⟩

theorem close (fd : ℤ) (s : Server) : Quiet s (s.close fd) :=
  ⟨rfl, rfl, rfl, rfl, rfl, [_], rfl, fun _ h ↦ List.mem_singleton.1 h ▸ trivial⟩

theorem touch (p : Ptr) (s : Server) : Quiet s (s.touch p) := of_eq rfl

theorem set (p : Ptr) (socket : Socket) (s : Server) : Quiet s ((Server.place p).set socket s) :=
  of_eq rfl

theorem destroySocket (p : Ptr) (s : Server) : Quiet s (s.destroySocket p) := by
  unfold Server.destroySocket
  dsimp only
  split
  · exact (((touch p s).trans (close _ _)).trans (set p _ _))
  · exact (touch p s).trans (set p _ _)

theorem connectSocket (p : Ptr) (created : Option ℕ) (s : Server) :
    Quiet s (s.connectSocket p created) := by
  have hd := (destroySocket p s).trans (emit (.system .createSocket) trivial _)
  cases created with
  | none => exact hd.trans (set p _ _)
  | some hint => exact hd.trans (of_eq rfl)

theorem deleteSocket (p : Ptr) (s : Server) : Quiet s (s.deleteSocket p) := by
  have hd := (destroySocket p s).trans (emit (.deleted p) trivial _)
  cases p <;> exact hd.trans (of_eq rfl)

theorem epollAdd (ok : Bool) (p : Ptr) (s : Server) : Quiet s (s.epollAdd ok p).2 := by
  have he := (touch p s).trans (emit (.system .epollCtl) trivial _)
  unfold Server.epollAdd
  split
  · exact refl s
  · cases ok with
    | false => exact he
    | true => exact he.trans (of_eq rfl)

theorem epollDel (ok : Bool) (p : Ptr) (s : Server) : Quiet s (s.epollDel ok p).2 := by
  have he := (touch p s).trans (emit (.system .epollCtl) trivial _)
  unfold Server.epollDel
  split
  · exact refl s
  · cases ok with
    | false => exact he
    | true => exact he.trans (of_eq rfl)

theorem runOp (s : Server) (action : ℕ × SocketOp) : Quiet s (s.runOp action) := by
  rcases s.runOp_cases action with h | ⟨p, -, ⟨x, -, h⟩ | h | ⟨created, h⟩⟩ <;> rw [h]
  · exact refl s
  · exact (touch p s).trans (set p x _)
  · exact destroySocket p s
  · exact connectSocket p created s

theorem runOps (ops : List (ℕ × SocketOp)) (s : Server) : Quiet s (s.runOps ops) := by
  induction ops generalizing s with
  | nil => exact refl s
  | cons op ops ih => exact (runOp s op).trans (ih _)

end Quiet

def Server.members (s : Server) : Set Ptr := {p | p ∈ s.sockets}

theorem Quiet.members {s t : Server} (h : Quiet s t) : t.members = s.members := by
  rw [Server.members, Server.members, h.sockets]

section Callbacks

variable {s : Server} {p : Ptr}

theorem Server.mem_holders (hp : p ∈ s.sockets) : some p ∈ holders s.members :=
  some_mem_holders.2 (.inr hp)

theorem Sound.runOp (h : Sound s.members s.resources) (action : ℕ × SocketOp) :
    Sound (s.runOp action).members (s.runOp action).resources := by
  rw [(Quiet.runOp s action).members]
  rcases s.runOp_cases action with he | ⟨p, hp, ⟨x, hx, he⟩ | he | ⟨created, he⟩⟩ <;> rw [he]
  · exact h
  · rw [h.touch (Server.mem_holders hp)]
    exact h.set hx
  · exact h.destroySocket (Server.mem_holders hp)
  · exact h.connectSocket (Server.mem_holders hp) created

theorem Sound.runOps (h : Sound s.members s.resources) (ops : List (ℕ × SocketOp)) :
    Sound (s.runOps ops).members (s.runOps ops).resources := by
  induction ops generalizing s with
  | nil => exact h
  | cons op ops ih => exact ih (h.runOp op)

end Callbacks

structure Served (p : Ptr) (record : Record) (disconnected : Bool) (s t : Server) : Prop where
  sound : Sound t.members t.resources
  efd : t.efd = s.efd
  sockets : t.sockets = s.sockets
  receiveSockets : t.receiveSockets = s.receiveSockets
  sendSockets : t.sendSockets = s.sendSockets
  disconnectedSockets : t.disconnectedSockets =
    if disconnected then addUnique s.disconnectedSockets p else s.disconnectedSockets
  log : ∃ new new', (∀ e ∈ new, e.silent) ∧ (∀ e ∈ new', e.silent) ∧
    t.log = s.log ++ (new ++ (if record.returned then [.recvCallback p] else []) ++ new') ++
      [.served p record disconnected]

theorem Served.events {p : Ptr} {record : Record} {disconnected : Bool} {s t : Server}
    (h : Served p record disconnected s t) :
    ∃ new, t.log = s.log ++ new ++ [.served p record disconnected] ∧
      ∀ e ∈ new, e.silent ∨ e = .recvCallback p := by
  obtain ⟨new, new', hnew, hnew', hlog⟩ := h.log
  refine ⟨_, hlog, ?_⟩
  intro e he
  rcases List.mem_append.1 he with he | he
  · rcases List.mem_append.1 he with he | he
    · exact .inl (hnew e he)
    · split at he
      · exact .inr (List.mem_singleton.1 he)
      · cases he
  · exact .inl (hnew' e he)

section Serve

variable (env : RoundEnv) {p : Ptr} {s : Server}

theorem recvCallback_quiet (p : Ptr) (s : Server) :
    Quiet (s.emit (.recvCallback p)) (s.recvCallback env p) := by
  unfold Server.recvCallback
  dsimp only
  split
  · exact .set p _ _
  · exact .runOps _ _

theorem Sound.recvCallback (h : Sound s.members s.resources) :
    Sound (s.recvCallback env p).members (s.recvCallback env p).resources := by
  have he : Sound (s.emit (.recvCallback p)).members (s.emit (.recvCallback p)).resources := h
  unfold Server.recvCallback
  dsimp only
  split
  · exact he.set rfl
  · exact he.runOps _

theorem callSocket_cases (h : Sound s.members s.resources) (hp : some p ∈ holders s.members) :
    Sound (s.callSocket env p).2.members (s.callSocket env p).2.resources ∧
    ((s.callSocket env p).1.returned = false ∧ Quiet s (s.callSocket env p).2 ∨
      (s.callSocket env p).1.returned = true ∧
        ∃ t, Quiet s t ∧ Quiet (t.emit (.recvCallback p)) (s.callSocket env p).2) := by
  rw [Server.callSocket, h.touch hp]
  rcases sendAndRecv_split (Server.place p) (env.io p) (fun _ ↦ Server.recvCallback env p) s
    (fun s t ↦ Quiet s t ∧ (Sound s.members s.resources → Sound t.members t.resources))
    (fun s ↦ ⟨.refl s, id⟩) (fun h h' ↦ ⟨h.1.trans h'.1, h'.2 ∘ h.2⟩)
    (fun s x hx ↦ ⟨.set p x s, fun h ↦ h.set hx⟩)
    with ⟨hret, hq, hs⟩ | ⟨hret, t, w, ⟨hq, hs⟩, hq', hs'⟩
  · exact ⟨hs h, .inl ⟨hret, hq⟩⟩
  · exact ⟨hs' (.recvCallback env (hs h)),
      .inr ⟨hret, w, hq, (recvCallback_quiet env p w).trans hq'⟩⟩

theorem served_of_quiet {t u : Server} {record : Record} {d : Bool} {m : List Event}
    (hs : Sound u.members u.resources) (hq : Quiet s t)
    (hq' : Quiet { t with log := t.log ++ m } u)
    (hmid : m = if record.returned then [.recvCallback p] else []) :
    Served p record d s { u.emit (.served p record d) with
      disconnectedSockets :=
        if d then addUnique u.disconnectedSockets p else u.disconnectedSockets } := by
  obtain ⟨new, hlog, hnew⟩ := hq.log
  obtain ⟨new', hlog', hnew'⟩ := hq'.log
  refine ⟨hs, hq'.efd.trans hq.efd, hq'.sockets.trans hq.sockets,
    hq'.receiveSockets.trans hq.receiveSockets, hq'.sendSockets.trans hq.sendSockets, ?_,
    new, new', hnew, hnew', ?_⟩
  · rw [hq'.disconnectedSockets.trans hq.disconnectedSockets]
  · show u.log ++ _ = _
    simp only [hlog', ← hmid, hlog, List.append_assoc]

theorem serve_served (h : Sound s.members s.resources) (hp : some p ∈ holders s.members) :
    Served p (s.callSocket env p).1 ((s.callSocket env p).2.flagged p) s (s.serve env p).2 := by
  obtain ⟨hs, hcases⟩ := callSocket_cases env h hp
  unfold Server.serve
  generalize s.callSocket env p = r at hs hcases
  obtain ⟨record, t⟩ := r
  dsimp only at hs hcases ⊢
  rcases hcases with ⟨hret, hq⟩ | ⟨hret, u, hq, hq'⟩
  · refine served_of_quiet (m := []) hs hq ?_ (by simp [hret])
    rw [List.append_nil]
    exact .refl t
  · exact served_of_quiet hs hq hq' (by simp [hret])

end Serve

structure Elsewhere (p : Ptr) (s t : Server) : Prop where
  memory : ∀ q, q ≠ p → t.memory q = s.memory q
  registered : ∀ q, q ≠ p → t.registered.filter (·.ptr = q) = s.registered.filter (·.ptr = q)

namespace Elsewhere

variable {owners : Set Ptr} {p : Ptr} {s t u : Server}

theorem of_eq (hm : t.memory = s.memory) (hr : t.registered = s.registered) : Elsewhere p s t :=
  ⟨fun q _ ↦ by rw [hm], fun q _ ↦ by rw [hr]⟩

theorem trans (h : Elsewhere p s t) (h' : Elsewhere p t u) : Elsewhere p s u :=
  ⟨fun q hq ↦ (h'.memory q hq).trans (h.memory q hq),
    fun q hq ↦ (h'.registered q hq).trans (h.registered q hq)⟩

theorem filter_of_ne {q : Ptr} (hq : q ≠ p) (l : List Registration) (keep : Registration → Bool)
    (hkeep : ∀ e ∈ l, e.ptr ≠ p → keep e = true) :
    (l.filter keep).filter (·.ptr = q) = l.filter (·.ptr = q) := by
  rw [List.filter_filter]
  apply List.filter_congr
  intro e he
  by_cases heq : e.ptr = q
  · simp [heq, hkeep e he (heq ▸ hq)]
  · simp [heq]

theorem destroySocket (h : Sound owners s.resources) (hp : some p ∈ holders owners) :
    Elsewhere p s (s.destroySocket p) := by
  constructor
  · intro q hq
    rw [Server.destroySocket_memory, update_of_ne hq]
  · intro q hq
    have hreg : (s.destroySocket p).registered = s.registered.filter (·.ptr ≠ p) :=
      congrArg Resources.registered (h.destroySocket_eq hp)
    rw [hreg]
    exact filter_of_ne hq _ _ fun e _ hne ↦ decide_eq_true hne

theorem deleteSocket (h : Sound owners s.resources) (hp : p ∈ owners) :
    Elsewhere p s (s.deleteSocket p) := by
  obtain ⟨a, -, rfl⟩ := (h.owned_iff p).1 hp
  exact (destroySocket h (some_mem_holders.2 (.inr hp))).trans (of_eq rfl rfl)

theorem epollAdd (ok : Bool) (p : Ptr) (s : Server) : Elsewhere p s (s.epollAdd ok p).2 := by
  unfold Server.epollAdd
  split
  · exact of_eq rfl rfl
  · cases ok with
    | false => exact of_eq rfl rfl
    | true =>
      refine ⟨fun q _ ↦ rfl, ?_⟩
      intro q hq
      show (s.registered ++ [_]).filter _ = _
      rw [List.filter_append, List.filter_singleton]
      simp [hq.symm]

theorem epollDel (h : Sound owners s.resources) (hp : some p ∈ holders owners) (ok : Bool) :
    Elsewhere p s (s.epollDel ok p).2 := by
  unfold Server.epollDel
  split
  · exact of_eq rfl rfl
  next hguard =>
    push Not at hguard
    cases ok with
    | false => exact of_eq rfl rfl
    | true =>
      refine ⟨fun q _ ↦ rfl, fun q hq ↦ filter_of_ne hq _ _ fun e he hne ↦ decide_eq_true ?_⟩
      rintro ⟨-, hfd⟩
      obtain ⟨-, -, hefd, hfd', -⟩ := h.registered e he
      exact hne (Option.some.inj (h.kept.unique (some e.ptr) (h.registered_ptr he) (some p) hp
        (hefd.trans_eq hfd') (hfd'.symm.trans hfd)))

end Elsewhere

section Del

variable {s : Server} {p : Ptr}

theorem mem_removeSocket {q : Ptr} {l : List Ptr} : q ∈ removeSocket p l ↔ q ∈ l ∧ q ≠ p := by
  simp [removeSocket]

structure Removed (p : Ptr) (s t : Server) : Prop where
  sound : Sound t.members t.resources
  elsewhere : Elsewhere p s t
  efd : t.efd = s.efd
  sockets : t.sockets = removeSocket p s.sockets
  receiveSockets : t.receiveSockets = removeSocket p s.receiveSockets
  sendSockets : t.sendSockets = removeSocket p s.sendSockets
  disconnectedSockets : t.disconnectedSockets = removeSocket p s.disconnectedSockets
  log : ∃ calls : List SysCall, t.log = s.log ++ calls.map .system ++ [.deleted p]

theorem destroySocket_log (p : Ptr) (s : Server) :
    ∃ calls : List SysCall, (s.destroySocket p).log = s.log ++ calls.map .system := by
  unfold Server.destroySocket
  dsimp only
  split
  · exact ⟨[_], rfl⟩
  · exact ⟨[], (List.append_nil _).symm⟩

theorem epollDel_log (ok : Bool) (p : Ptr) (s : Server) :
    ∃ calls : List SysCall, (s.epollDel ok p).2.log = s.log ++ calls.map .system := by
  unfold Server.epollDel
  split
  · exact ⟨[], (List.append_nil _).symm⟩
  · cases ok <;> exact ⟨[_], rfl⟩

theorem del_removed (h : Sound s.members s.resources) (hp : p ∈ s.sockets) (ok : Bool) :
    Removed p s (s.del ok p) := by
  obtain ⟨a, -, rfl⟩ := (h.owned_iff p).1 hp
  have hp' := Server.mem_holders hp
  have hq := Quiet.epollDel ok (.client a) s
  have hs := h.epollDel hp' ok
  have he : Elsewhere (.client a) s (s.epollDel ok (.client a)).2 := .epollDel h hp' ok
  obtain ⟨calls, hlog⟩ := epollDel_log ok (.client a) s
  unfold Server.del
  rw [if_neg (by simp)]
  generalize (s.epollDel ok (.client a)).2 = t at hq hs he hlog
  have hs' : Sound s.members (t.removeFromLists (.client a)).resources := hs
  have he' : Elsewhere (.client a) t (t.removeFromLists (.client a)) := .of_eq rfl rfl
  have hd := Quiet.deleteSocket (.client a) (t.removeFromLists (.client a))
  obtain ⟨calls', hlog'⟩ := destroySocket_log (.client a) (t.removeFromLists (.client a))
  have hsock : (t.removeFromLists (.client a)).sockets = removeSocket (.client a) s.sockets := by
    rw [← hq.sockets]
    rfl
  refine ⟨?_, (he.trans he').trans (.deleteSocket hs' hp), hd.efd.trans hq.efd,
    hd.sockets.trans hsock, ?_, ?_, ?_, calls ++ calls', ?_⟩
  · have hmembers : ((t.removeFromLists (.client a)).deleteSocket (.client a)).members =
        s.members \ {.client a} := by
      ext q
      rw [hd.members]
      show q ∈ (t.removeFromLists (.client a)).sockets ↔ _
      rw [hsock, mem_removeSocket]
      rfl
    rw [hmembers]
    exact hs'.deleteSocket hp
  · rw [hd.receiveSockets, ← hq.receiveSockets]
    rfl
  · rw [hd.sendSockets, ← hq.sendSockets]
    rfl
  · rw [hd.disconnectedSockets, ← hq.disconnectedSockets]
    rfl
  · show ((t.removeFromLists (.client a)).destroySocket (.client a)).log ++ [_] = _
    rw [hlog', show (t.removeFromLists (.client a)).log = t.log from rfl, hlog, List.map_append,
      List.append_assoc s.log]

theorem del_listener (ok : Bool) (s : Server) : s.del ok .listener = s := if_pos (.inr rfl)

end Del

theorem Server.epollAdd_memory (s : Server) (ok : Bool) (p : Ptr) :
    (s.epollAdd ok p).2.memory = s.memory := by
  unfold epollAdd
  split
  · rfl
  · cases ok <;> rfl

section Accept

variable {owners : Set Ptr} {s : Server}

theorem Sound.close_opened (h : Sound owners s.resources) {fd : ℤ} (hnew : fd ∉ s.openFds) :
    ((s.opened fd).close fd).resources = s.resources := by
  have hne : ∀ x ∈ s.openFds, x ≠ fd := fun x hx hxfd ↦ hnew (hxfd ▸ hx)
  have hopen : (fd :: s.openFds).filter (· ≠ fd) = s.openFds := by
    rw [List.filter_cons_of_neg (by simp)]
    exact List.filter_eq_self.2 fun x hx ↦ decide_eq_true (hne x hx)
  have hreg : s.registered.filter (fun r ↦ r.epfd ≠ fd ∧ r.fd ≠ fd) = s.registered := by
    refine List.filter_eq_self.2 fun e he ↦ decide_eq_true ?_
    obtain ⟨h0, hepfd, hefd, hfd, hptr⟩ := h.registered e he
    refine ⟨hne _ ?_, hne _ ?_⟩
    · exact hepfd ▸ h.kept.mem (none_mem_holders owners) (h0.trans_eq hepfd)
    · exact hfd ▸ h.kept.mem (h.registered_ptr he) (hefd.trans_eq hfd)
  simp only [Server.resources, Server.close, Server.opened, Server.emit, hopen, hreg]
  simp

/-- What an accepted connection does when it becomes a client. -/
structure Joined (p : Ptr) (s t : Server) : Prop where
  efd : t.efd = s.efd
  sockets : t.sockets = addUnique s.sockets p
  receiveSockets : t.receiveSockets = addUnique s.receiveSockets p
  sendSockets : t.sendSockets = s.sendSockets
  disconnectedSockets : t.disconnectedSockets = s.disconnectedSockets
  log : ∃ new, t.log = s.log ++ new ++ [.accepted p] ∧ ∀ e ∈ new, e.silent
  socket : ∃ sendBuffer rcvBuffer fd, t.memory p = { Socket.new sendBuffer rcvBuffer with fd := fd }

theorem Joined.of_quiet {p : Ptr} {t u : Server} (h : Joined p t u) (hq : Quiet s t) :
    Joined p s u := by
  obtain ⟨new, hlog, hnew⟩ := hq.log
  obtain ⟨new', hlog', hnew'⟩ := h.log
  refine ⟨h.efd.trans hq.efd, h.sockets.trans (by rw [hq.sockets]),
    h.receiveSockets.trans (by rw [hq.receiveSockets]), h.sendSockets.trans hq.sendSockets,
    h.disconnectedSockets.trans hq.disconnectedSockets, ⟨new ++ new', ?_, ?_⟩, h.socket⟩
  · rw [hlog', hlog, List.append_assoc s.log]
  · intro e he
    exact (List.mem_append.1 he).elim (hnew e) (hnew' e)

theorem addClient_cases {p : Ptr} (h : Sound (insert p owners) s.resources) (hp : p ∉ owners)
    (hsocket : ∃ sendBuffer rcvBuffer fd,
      s.memory p = { Socket.new sendBuffer rcvBuffer with fd := fd }) (ok : Bool) :
    Elsewhere p s (s.addClient ok p) ∧
      (Quiet s (s.addClient ok p) ∧ Sound owners (s.addClient ok p).resources ∨
        Joined p s (s.addClient ok p) ∧ Sound (insert p owners) (s.addClient ok p).resources) := by
  have hq := Quiet.epollAdd ok p s
  have he := Elsewhere.epollAdd ok p s
  have hs := h.epollAdd (some_mem_holders.2 (.inr (Set.mem_insert p owners))) ok
  rw [← s.epollAdd_memory ok p] at hsocket
  unfold Server.addClient
  generalize s.epollAdd ok p = r at hq he hs hsocket
  obtain ⟨ok, t⟩ := r
  cases ok with
  | false =>
    refine ⟨he.trans (.deleteSocket hs (Set.mem_insert p owners)),
      .inl ⟨hq.trans (.deleteSocket p t), ?_⟩⟩
    have := hs.deleteSocket (Set.mem_insert p owners)
    rwa [Set.insert_sdiff_self_of_notMem hp] at this
  | true =>
    obtain ⟨new, hlog, hnew⟩ := hq.log
    refine ⟨he.trans (.of_eq rfl rfl), .inr ⟨⟨hq.efd, ?_, ?_, hq.sendSockets,
      hq.disconnectedSockets, ⟨new, ?_, hnew⟩, hsocket⟩, hs⟩⟩
    · exact congrArg (addUnique · p) hq.sockets
    · exact congrArg (addUnique · p) hq.receiveSockets
    · exact congrArg (· ++ [_]) hlog

theorem acceptOne_cases (h : Sound owners s.resources) (a : Accepted) :
    ∃ p, some p ∉ holders owners ∧ Elsewhere p s (s.acceptOne a) ∧
      (Quiet s (s.acceptOne a) ∧ Sound owners (s.acceptOne a).resources ∨
        Joined p s (s.acceptOne a) ∧ Sound (insert p owners) (s.acceptOne a).resources) := by
  have hfd := s.newFd_nonneg a.fd
  have hnew := s.newFd_notMem a.fd
  have haddr := unused_notMem s.allocated a.address
  have hown : Ptr.client (unused s.allocated a.address) ∉ owners := by
    intro hmem
    obtain ⟨b, hb, heq⟩ := (h.owned_iff _).1 hmem
    exact haddr (Ptr.client.inj heq ▸ hb)
  refine ⟨_, fun hmem ↦ (some_mem_holders.1 hmem).elim (by nofun) hown, ?_⟩
  generalize hs₁ : ((s.opened (s.newFd a.fd)).emit (.system .accept)).emit (.system .configure) = s₁
  have hq₁ : Quiet s s₁ := hs₁ ▸ ⟨rfl, rfl, rfl, rfl, rfl, _, List.append_assoc _ _ _, by
    simp [Event.silent]⟩
  unfold Server.acceptOne
  dsimp only
  rw [hs₁]
  split
  · have hr : (s₁.close (s.newFd a.fd)).resources = s.resources := hs₁ ▸ h.close_opened hnew
    exact ⟨.of_eq (congrArg Resources.memory hr) (congrArg Resources.registered hr),
      .inl ⟨hq₁.trans (.close _ s₁), hr ▸ h⟩⟩
  · have halloc : s₁.allocated = s.allocated := hs₁ ▸ rfl
    rw [halloc]
    generalize unused s.allocated a.address = address at haddr hown
    generalize hs₂ : ({ s₁ with
      memory := update s₁.memory (.client address)
        { Socket.new a.sendBuffer a.rcvBuffer with fd := s.newFd a.fd }
      allocated := address :: s.allocated } : Server) = s₂
    have hq₂ : Quiet s s₂ := hq₁.trans (hs₂ ▸ .of_eq rfl)
    have he₂ : Elsewhere (.client address) s s₂ := by
      subst hs₂ hs₁
      exact ⟨fun q hq ↦ update_of_ne hq _ _, fun q _ ↦ rfl⟩
    have hsound : Sound (insert (.client address) owners) s₂.resources := by
      subst hs₂ hs₁
      exact h.newClient haddr rfl hfd hnew
    obtain ⟨he, hcases⟩ := addClient_cases hsound hown
      ⟨a.sendBuffer, a.rcvBuffer, s.newFd a.fd, by rw [← hs₂]; exact update_self ..⟩ a.epollCtl
    refine ⟨he₂.trans he, hcases.imp (And.imp_left hq₂.trans) (And.imp_left ?_)⟩
    intro hj
    exact hj.of_quiet hq₂

end Accept

end LowLatency.TCPServer
