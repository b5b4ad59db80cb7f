import LowLatency.TCPServer.Ownership

namespace LowLatency.TCPServer

open Library.Handles SocketUtils TCPSocket Function

section Service

variable {s : Server}

theorem Inv.sendSockets_extra (h : Inv s) :
    s.sendSockets.filter (· ∉ s.sockets) = [] ∨
      s.sendSockets.filter (· ∉ s.sockets) = [.listener] ∧ .listenerWritable ∈ s.log := by
  have hknown : ∀ p ∈ s.sendSockets.filter (· ∉ s.sockets),
      p = .listener ∧ .listenerWritable ∈ s.log := by
    intro p hp
    obtain ⟨hp, hmem⟩ := List.mem_filter.1 hp
    exact (h.lists.send_known p hp).resolve_left (of_decide_eq_true hmem)
  have hnodup := h.lists.send_nodup.filter fun p ↦ decide (p ∉ s.sockets)
  generalize s.sendSockets.filter (· ∉ s.sockets) = l at hknown hnodup
  match l with
  | [] => exact .inl rfl
  | [p] =>
    obtain ⟨rfl, hw⟩ := hknown p (by simp)
    exact .inr ⟨rfl, hw⟩
  | p :: q :: l =>
    have hpq : p = q := (hknown p (by simp)).1.trans (hknown q (by simp)).1.symm
    simp [hpq] at hnodup

def finishes (log : List Event) : ℕ := log.count .recvFinished

theorem mem_callbacks {p : Ptr} {log : List Event} : p ∈ callbacks log ↔ .recvCallback p ∈ log := by
  rw [callbacks, List.mem_filterMap]
  constructor
  · rintro ⟨e, he, heq⟩
    cases e <;> cases heq
    exact he
  · exact fun h ↦ ⟨_, h, rfl⟩

structure FullRound (s : Server) (new : List Event) : Prop where
  served : servedSockets new = s.sockets ∨
    servedSockets new = s.sockets ++ [.listener] ∧ .listenerWritable ∈ s.log
  finished_once : finishes new ≤ 1
  finished_iff : .recvFinished ∈ new ↔ ∃ p ∈ s.sockets, .recvCallback p ∈ new
  finished_last : ∀ before after, new = before ++ .recvFinished :: after →
    ∀ p ∈ s.sockets, .recvCallback p ∉ after ∧ p ∉ servedSockets after

theorem finished_between {new rest : List Event} (hnew : .recvFinished ∉ new)
    (hrest : .recvFinished ∉ rest) (hcall : ∃ p ∈ s.sockets, .recvCallback p ∈ new)
    (hno : ∀ p ∈ s.sockets, .recvCallback p ∉ rest ∧ p ∉ servedSockets rest)
    (hserved : servedSockets (new ++ rest) = s.sockets ∨
      servedSockets (new ++ rest) = s.sockets ++ [.listener] ∧ .listenerWritable ∈ s.log) :
    FullRound s (new ++ .recvFinished :: rest) := by
  refine ⟨?_, ?_, ?_, ?_⟩
  · rwa [← List.singleton_append, servedSockets_append, servedSockets_append,
      show servedSockets [.recvFinished] = [] from rfl, List.nil_append, ← servedSockets_append]
  · rw [finishes, List.count_append, List.count_cons_self, List.count_eq_zero_of_not_mem hnew,
      List.count_eq_zero_of_not_mem hrest]
  · obtain ⟨p, hp, hmem⟩ := hcall
    exact ⟨fun _ ↦ ⟨p, hp, by simp [hmem]⟩, fun _ ↦ by simp⟩
  · intro before after heq
    obtain ⟨-, -, rfl⟩ := (List.append_cons_inj_of_notMem hnew hrest).1 heq
    exact hno

theorem finished_never {new : List Event} (hnew : .recvFinished ∉ new)
    (hcall : ∀ p ∈ s.sockets, .recvCallback p ∉ new)
    (hserved : servedSockets new = s.sockets ∨
      servedSockets new = s.sockets ++ [.listener] ∧ .listenerWritable ∈ s.log) :
    FullRound s new := by
  refine ⟨hserved, ?_, iff_of_false hnew ?_, fun before after heq ↦ absurd (by simp [heq]) hnew⟩
  · rw [finishes, List.count_eq_zero_of_not_mem hnew]
    exact Nat.zero_le 1
  · rintro ⟨p, hp, hmem⟩
    exact hcall p hp hmem

theorem Inv.fullRound (h : Inv s) (env : RoundEnv) (hefd : 0 ≤ s.efd) :
    ∃ new, (s.sendAndRecv env).log = s.log ++ new ∧ FullRound s new := by
  obtain ⟨t, u, received, received', -, hround, hu, hround'⟩ :=
    h.sendAndRecv_open env (not_lt.2 hefd)
  obtain ⟨new, hlog, hserved, hsub, hreceived, hfin⟩ := hround.log
  obtain ⟨new', hlog', hserved', hsub', -, hfin'⟩ := hround'.log
  have hcall : (∃ p ∈ s.sockets, .recvCallback p ∈ new) ↔ received := by
    rw [hreceived]
    constructor
    · rintro ⟨p, -, hp⟩
      exact List.ne_nil_of_mem (mem_callbacks.2 hp)
    · intro hne
      obtain ⟨p, hp⟩ := List.exists_mem_of_ne_nil _ hne
      exact ⟨p, hsub.subset hp, mem_callbacks.1 hp⟩
  have hextra : ∀ p ∈ s.sockets, .recvCallback p ∉ new' ∧ p ∉ servedSockets new' := by
    have hne : ∀ p ∈ s.sockets, p ∉ s.sendSockets.filter (· ∉ s.sockets) := fun p hp hmem ↦
      of_decide_eq_true (List.mem_filter.1 hmem).2 hp
    exact fun p hp ↦ ⟨fun hmem ↦ hne p hp (hsub'.subset (mem_callbacks.2 hmem)),
      hserved' ▸ hne p hp⟩
  have hall : s.sockets ++ servedSockets new' = s.sockets ∨
      s.sockets ++ servedSockets new' = s.sockets ++ [.listener] ∧ .listenerWritable ∈ s.log := by
    rw [hserved']
    exact h.sendSockets_extra.imp (fun he ↦ by rw [he, List.append_nil])
      (And.imp_left fun he ↦ by rw [he])
  cases received with
  | false =>
    subst hu
    refine ⟨new ++ new', by rw [hlog', hlog, List.append_assoc],
      finished_never (by simp [hfin, hfin']) (fun p hp hmem ↦ ?_) ?_⟩
    · rcases List.mem_append.1 hmem with hmem | hmem
      · exact absurd (hcall.1 ⟨p, hp, hmem⟩) Bool.false_ne_true
      · exact (hextra p hp).1 hmem
    · rwa [servedSockets_append, hserved]
  | true =>
    obtain ⟨calls, hlog'', hsilent⟩ := (Quiet.runOps env.finished (t.emit .recvFinished)).log
    subst hu
    refine ⟨new ++ .recvFinished :: (calls ++ new'), ?_,
      finished_between hfin ?_ (hcall.2 rfl) (?_) ?_⟩
    · rw [hlog', if_pos rfl, hlog'',
        show (t.emit .recvFinished).log = t.log ++ [.recvFinished] from rfl, hlog]
      simp only [List.append_assoc, List.cons_append, List.nil_append]
    · simp only [List.mem_append, not_or]
      exact ⟨fun hmem ↦ hsilent _ hmem, hfin'⟩
    · intro p hp
      rw [servedSockets_append, servedSockets_silent hsilent, List.nil_append]
      refine ⟨?_, (hextra p hp).2⟩
      simp only [List.mem_append, not_or]
      exact ⟨fun hmem ↦ hsilent _ hmem, (hextra p hp).1⟩
    · rwa [servedSockets_append, servedSockets_append, servedSockets_silent hsilent, hserved,
        List.nil_append]

/-- One call of `sendAndRecv()` in any reachable state serves every client once,
in the order of acceptance, and runs the finished callback behind the last
receive callback of a client. Nothing else is served, but for a listener that
epoll reported writable. -/
theorem run_serves_each_client_once (memory : Ptr → Socket) (ops : List Op) (env : RoundEnv)
    (hefd : 0 ≤ (run memory ops).efd) :
    (run memory ops).sockets.Nodup ∧ .listener ∉ (run memory ops).sockets ∧
    (run memory ops).sockets.Sublist (acceptanceOrder (run memory ops).log) ∧
    (acceptanceOrder (run memory ops).log).Nodup ∧
    ∃ new, ((run memory ops).sendAndRecv env).log = (run memory ops).log ++ new ∧
      FullRound (run memory ops) new := by
  have h := run_inv memory ops
  exact ⟨h.lists.sockets_nodup, h.listener_notMem, h.lists.order, acceptanceOrder_nodup _,
    h.fullRound env hefd⟩

def sameIo (recv : RecvResult) : RoundEnv :=
  ⟨fun _ ↦ ⟨recv, fun _ ↦ .error .eagain⟩, fun _ ↦ [], []⟩

theorem run_serves_each_client_once_two :
    (run blank [listening, accepting [connection 5 1, connection 6 0]]).sockets =
      [.client 1, .client 0] ∧
    ∃ new, ((run blank [listening, accepting [connection 5 1, connection 6 0]]).sendAndRecv
        (sameIo (.received [7] []))).log =
        (run blank [listening, accepting [connection 5 1, connection 6 0]]).log ++ new ∧
      FullRound (run blank [listening, accepting [connection 5 1, connection 6 0]]) new :=
  ⟨by decide, (run_serves_each_client_once blank _ _ (by decide)).2.2.2.2⟩

theorem run_serves_listener :
    0 ≤ (run blank [listening, reporting [⟨.listener, false, false, false, true⟩] []]).efd ∧
    (run blank [listening, reporting [⟨.listener, false, false, false, true⟩] []]).sockets = [] ∧
    servedSockets (run blank [listening, reporting [⟨.listener, false, false, false, true⟩] [],
      .sendAndRecv (sameIo (.error (.other 107)))]).log = [.listener] := by
  decide

end Service

section Disconnection

variable {s : Server}

/-- The deferred deletion of the clients `gone` at the start of a `poll()`. -/
structure Deletes (gone : List Ptr) (s t : Server) : Prop where
  log : ∃ new, t.log = s.log ++ .polled :: new ∧ deletions new = gone
  sockets : t.sockets = s.sockets.filter (· ∉ gone)
  receiveSockets : t.receiveSockets = s.receiveSockets.filter (· ∉ gone)
  sendSockets : t.sendSockets = s.sendSockets.filter (· ∉ gone)
  disconnectedSockets : t.disconnectedSockets = []
  unregistered : ∀ p ∈ gone, ∀ e ∈ t.registered, e.ptr ≠ p
  released : ∀ p ∈ gone, t.live p = false

structure KeepsClient (p : Ptr) (s t : Server) : Prop where
  live : t.live p = true
  memory : t.memory p = s.memory p
  registered : t.registered.filter (·.ptr = p) = s.registered.filter (·.ptr = p)

theorem Inv.deletes (h : Inv s) (env : PollEnv) :
    Deletes (s.disconnectedSockets.filter (· ≠ .listener)) s (s.deleteDisconnected env) := by
  have hp := h.deleteDisconnected env
  generalize hgone : s.disconnectedSockets.filter (· ≠ .listener) = gone at hp
  generalize s.deleteDisconnected env = t at hp
  have hsockets : t.sockets = s.sockets.filter (· ∉ gone) := hp.sockets
  have hnot : ∀ p ∈ gone, p ∉ t.sockets := by
    intro p hp' hmem
    rw [hsockets] at hmem
    exact of_decide_eq_true (List.mem_filter.1 hmem).2 hp'
  have hlistener : Ptr.listener ∉ gone := by simp [← hgone]
  obtain ⟨new, hlog, hdel, -⟩ := hp.log
  refine ⟨⟨new, ?_, hdel⟩, hsockets, ?_, hp.sendSockets, hp.disconnectedSockets, ?_, ?_⟩
  · rw [hlog]
    exact List.append_assoc s.log [_] new
  · rw [hp.inv.lists.receive_eq, h.lists.receive_eq, hsockets]
  · rintro p hp' e he rfl
    rcases some_mem_holders.1 (hp.inv.sound.registered_ptr he) with heq | hmem
    · exact hlistener (heq ▸ hp')
    · exact hnot _ hp' hmem
  · intro p hp'
    cases p with
    | null => rfl
    | listener => exact absurd hp' hlistener
    | client a =>
      refine decide_eq_false fun ha ↦ hnot _ hp' ?_
      exact (hp.inv.sound.owned_iff _).2 ⟨a, ha, rfl⟩

theorem Inv.mem_disconnected (h : Inv s) (p : Ptr) :
    p ∈ s.disconnectedSockets.filter (· ≠ .listener) ↔ p ∈ s.sockets ∧ marked p s.log := by
  rw [List.mem_filter, ← h.lists.marked_iff, decide_eq_true_eq]
  constructor
  · rintro ⟨hp, hne⟩
    exact ⟨(h.lists.disconnected_known p hp).resolve_right fun hl ↦ hne hl.1, hp⟩
  · rintro ⟨hp, hd⟩
    exact ⟨hd, fun heq ↦ h.listener_notMem (heq ▸ hp)⟩

theorem Inv.sendAndRecv_frame (h : Inv s) (env : RoundEnv) :
    (s.sendAndRecv env).efd = s.efd ∧ (s.sendAndRecv env).sockets = s.sockets := by
  by_cases hefd : s.efd < 0
  · rw [Server.sendAndRecv, if_pos hefd]
    exact ⟨rfl, rfl⟩
  · obtain ⟨t, u, received, received', -, hround, hu, hround'⟩ := h.sendAndRecv_open env hefd
    have hfinished : u.efd = t.efd ∧ u.sockets = t.sockets := by
      rw [hu]
      split
      · have hq := Quiet.runOps env.finished (t.emit .recvFinished)
        exact ⟨hq.efd, hq.sockets⟩
      · exact ⟨rfl, rfl⟩
    exact ⟨hround'.efd.trans (hfinished.1.trans hround.efd),
      hround'.sockets.trans (hfinished.2.trans hround.sockets)⟩

end Disconnection

end LowLatency.TCPServer
