import LowLatency.TCPServer.Invariant

namespace LowLatency.TCPServer

open Library.Handles SocketUtils TCPSocket Function

section Deletion

def deletions (log : List Event) : List Ptr :=
  log.filterMap fun e ↦ match e with
    | .deleted p => some p
    | _ => none

theorem deletions_system (calls : List SysCall) : deletions (calls.map .system) = [] := by
  simp [deletions]

/-- The clients `l` are deleted, once each and in order; nothing else changes. -/
structure Purged (l : List Ptr) (s t : Server) : Prop where
  inv : Inv t
  efd : t.efd = s.efd
  sockets : t.sockets = s.sockets.filter (· ∉ l)
  sendSockets : t.sendSockets = s.sendSockets.filter (· ∉ l)
  disconnectedSockets : t.disconnectedSockets = []
  memory : ∀ p, p ∉ l → t.memory p = s.memory p
  registered : ∀ p, p ∉ l → t.registered.filter (·.ptr = p) = s.registered.filter (·.ptr = p)
  log : ∃ new, t.log = s.log ++ new ∧ deletions new = l ∧ ∀ e ∈ new, e.silent

theorem removeSocket_filter (p : Ptr) (l k : List Ptr) :
    (removeSocket p k).filter (· ∉ l) = k.filter (· ∉ p :: l) := by
  rw [removeSocket, List.filter_filter]
  apply List.filter_congr
  intro q _
  simp [Bool.and_comm]

theorem Purged.cons {p : Ptr} {l : List Ptr} {s t u : Server} (hr : Removed p s t)
    (h : Purged l t u) : Purged (p :: l) s u := by
  obtain ⟨calls, hlog⟩ := hr.log
  obtain ⟨new, hlog', hdel, hsilent⟩ := h.log
  refine ⟨h.inv, h.efd.trans hr.efd, ?_, ?_, h.disconnectedSockets, ?_, ?_,
    calls.map .system ++ [.deleted p] ++ new, ?_, ?_, ?_⟩
  · rw [h.sockets, hr.sockets, removeSocket_filter]
  · rw [h.sendSockets, hr.sendSockets, removeSocket_filter]
  · intro q hq
    obtain ⟨hqp, hql⟩ := not_or.1 (mt List.mem_cons.2 hq)
    exact (h.memory q hql).trans (hr.elsewhere.memory q hqp)
  · intro q hq
    obtain ⟨hqp, hql⟩ := not_or.1 (mt List.mem_cons.2 hq)
    exact (h.registered q hql).trans (hr.elsewhere.registered q hqp)
  · rw [hlog', hlog]
    simp only [List.append_assoc]
  · simp only [deletions, List.filterMap_append] at hdel ⊢
    rw [hdel, ← deletions, deletions_system]
    rfl
  · intro e he
    rcases List.mem_append.1 he with he | he
    · rcases List.mem_append.1 he with he | he
      · obtain ⟨call, -, rfl⟩ := List.mem_map.1 he
        trivial
      · rw [List.mem_singleton.1 he]
        trivial
    · exact hsilent e he

theorem purge (ok : Ptr → Bool) {l : List Ptr} (hl : l.Nodup) {s : Server} (h : Inv s)
    (hdis : s.disconnectedSockets = []) (hmem : ∀ p ∈ l, p ∈ s.sockets) :
    Purged l s (l.foldl (fun s p ↦ s.del (ok p) p) s) := by
  induction l generalizing s with
  | nil =>
    refine ⟨h, rfl, ?_, ?_, hdis, fun _ _ ↦ rfl, fun _ _ ↦ rfl, [], by simp, rfl, by nofun⟩
    · simp
    · simp
  | cons p l ih =>
    obtain ⟨hp, hl⟩ := List.nodup_cons.1 hl
    have hr := del_removed h.sound (hmem p (by simp)) (ok p)
    refine .cons hr (ih hl ⟨hr.sound, h.lists.removed (by simp [hdis]) hr⟩ ?_ fun q hq ↦ ?_)
    · simp [hr.disconnectedSockets, hdis, removeSocket]
    · rw [hr.sockets, mem_removeSocket]
      exact ⟨hmem q (by simp [hq]), fun hqp ↦ hp (hqp ▸ hq)⟩

theorem foldl_del_clients (ok : Ptr → Bool) (l : List Ptr) (s : Server) :
    l.foldl (fun s p ↦ s.del (ok p) p) s =
      (l.filter (· ≠ .listener)).foldl (fun s p ↦ s.del (ok p) p) s := by
  induction l generalizing s with
  | nil => rfl
  | cons p l ih =>
    rcases eq_or_ne p .listener with rfl | hp
    · rw [List.foldl_cons, del_listener, ih, List.filter_cons_of_neg (by simp)]
    · rw [List.foldl_cons, ih, List.filter_cons_of_pos (by simpa using hp), List.foldl_cons]

theorem Inv.deleteDisconnected {s : Server} (h : Inv s) (env : PollEnv) :
    Purged (s.disconnectedSockets.filter (· ≠ .listener))
      { s.emit .polled with disconnectedSockets := [] } (s.deleteDisconnected env) := by
  unfold Server.deleteDisconnected
  dsimp only
  rw [foldl_del_clients]
  refine purge env.epollCtl (h.lists.disconnected_nodup.filter _) ⟨h.sound, h.lists.polled⟩ rfl ?_
  intro p hp
  obtain ⟨hp, hne⟩ := List.mem_filter.1 hp
  exact (h.lists.disconnected_known p hp).resolve_right fun hw ↦ of_decide_eq_true hne hw.1

end Deletion

section Events

structure Dispatched (s t : Server) : Prop where
  inv : Inv t
  resources : t.resources = s.resources
  sockets : t.sockets = s.sockets
  sends : s.sendSockets <+: t.sendSockets

theorem addUnique_extends (l : List Ptr) (p : Ptr) : l <+: addUnique l p := by
  unfold addUnique
  split
  · exact List.prefix_rfl
  · exact List.prefix_append _ _

theorem Inv.dispatched {s : Server} (h : Inv s) {event : EpollEvent}
    (hp : event.ptr ∈ s.sockets ∨ event.ptr = .listener) (b : Bool) :
    Dispatched s (Server.dispatch (b, s) event).2 := by
  have hinv := h.dispatch hp b
  rw [← h.lists.receive_eq] at hp
  rcases dispatch_cases b hp with he | ⟨hl, he⟩ | ⟨hl, he⟩ | ⟨hl, he⟩ <;> rw [he] at hinv ⊢
  · exact ⟨hinv, rfl, rfl, List.prefix_rfl⟩
  · exact ⟨hinv, rfl, rfl, List.prefix_rfl⟩
  · exact ⟨hinv, rfl, rfl, addUnique_extends _ _⟩
  · exact ⟨hinv, rfl, rfl, addUnique_extends _ _⟩

theorem Inv.dispatchAll {s : Server} (h : Inv s) (b : Bool) (events : List EpollEvent)
    (hp : ∀ event ∈ events, event.ptr ∈ s.sockets ∨ event.ptr = .listener) :
    Dispatched s (events.foldl Server.dispatch (b, s)).2 := by
  induction events generalizing s b with
  | nil => exact ⟨h, rfl, rfl, List.prefix_rfl⟩
  | cons event events ih =>
    have hd := h.dispatched (hp event (by simp)) b
    rw [List.foldl_cons]
    generalize Server.dispatch (b, s) event = r at hd
    obtain ⟨b', t⟩ := r
    have hrest := ih hd.inv b' fun event' he ↦ hd.sockets ▸ hp event' (by simp [he])
    exact ⟨hrest.inv, hrest.resources.trans hd.resources, hrest.sockets.trans hd.sockets,
      hd.sends.trans hrest.sends⟩

/-- An iteration of the event loop schedules the client that is reported with
`EPOLLERR` or `EPOLLHUP`, and no other. -/
theorem dispatch_disconnected (acc : Bool × Server) (event : EpollEvent) (a : ℕ) :
    .client a ∈ (Server.dispatch acc event).2.disconnectedSockets ↔
      .client a ∈ acc.2.disconnectedSockets ∨
        event.ptr = .client a ∧ (event.err || event.hup) = true := by
  obtain ⟨b, s⟩ := acc
  obtain ⟨p, err, hup, readable, writable⟩ := event
  unfold Server.dispatch
  dsimp only
  by_cases hbad : (err || hup) = true
  · rw [if_pos hbad]
    cases p with
    | null => simp
    | listener => simp
    | client c =>
      rw [if_neg Ptr.noConfusion, if_pos (show Ptr.client c ≠ .listener from Ptr.noConfusion)]
      simp only [hbad, and_true, mem_addUnique, @eq_comm _ (Ptr.client a)]
  · rw [if_neg hbad]
    have hnone : ¬ (p = .client a ∧ (err || hup) = true) := fun h ↦ hbad h.2
    simp only [hnone, or_false]
    cases readable <;> cases writable <;> cases p <;> simp [Server.emit]

theorem dispatchAll_disconnected (acc : Bool × Server) (events : List EpollEvent) (a : ℕ) :
    .client a ∈ (events.foldl Server.dispatch acc).2.disconnectedSockets ↔
      .client a ∈ acc.2.disconnectedSockets ∨
        ∃ event ∈ events, event.ptr = .client a ∧ (event.err || event.hup) = true := by
  induction events generalizing acc with
  | nil => simp
  | cons event events ih =>
    rw [List.foldl_cons, ih, dispatch_disconnected, or_assoc]
    simp only [List.mem_cons, exists_eq_or_imp]

theorem reportable_known {s : Server} (h : Inv s) (events : List EpollEvent) :
    ∀ event ∈ s.reportable events, event.ptr ∈ s.sockets ∨ event.ptr = .listener := by
  intro event he
  obtain ⟨-, hany⟩ := List.mem_filter.1 (List.mem_of_mem_take he)
  obtain ⟨r, hr, heq⟩ := List.any_eq_true.1 hany
  have hptr : r.ptr = event.ptr := by
    simp only [Bool.and_eq_true, decide_eq_true_eq] at heq
    exact heq.2
  exact hptr ▸ (some_mem_holders.1 (h.sound.registered_ptr hr)).symm

end Events

section Accepting

structure Grown (s t : Server) : Prop where
  inv : Inv t
  sockets : s.sockets <+: t.sockets
  sendSockets : t.sendSockets = s.sendSockets
  disconnectedSockets : t.disconnectedSockets = s.disconnectedSockets
  memory : ∀ p, some p ∈ holders s.members → t.memory p = s.memory p
  registered : ∀ p, some p ∈ holders s.members →
    t.registered.filter (·.ptr = p) = s.registered.filter (·.ptr = p)
  fresh : ∀ p ∈ t.sockets, p ∉ s.sockets → ∃ sendBuffer rcvBuffer fd,
    t.memory p = { Socket.new sendBuffer rcvBuffer with fd := fd }
  log : ∃ new, t.log = s.log ++ new ∧
    ∀ e ∈ new, e.silent ∨ ∃ p ∉ s.sockets, e = .accepted p

theorem Grown.trans {s t u : Server} (h : Grown s t) (h' : Grown t u) : Grown s u := by
  have hmem : ∀ p, some p ∈ holders s.members → some p ∈ holders t.members := fun p hp ↦
    some_mem_holders.2 ((some_mem_holders.1 hp).imp_right fun hp ↦ h.sockets.subset hp)
  obtain ⟨new, hlog, hnew⟩ := h.log
  obtain ⟨new', hlog', hnew'⟩ := h'.log
  refine ⟨h'.inv, h.sockets.trans h'.sockets, h'.sendSockets.trans h.sendSockets,
    h'.disconnectedSockets.trans h.disconnectedSockets,
    fun p hp ↦ (h'.memory p (hmem p hp)).trans (h.memory p hp),
    fun p hp ↦ (h'.registered p (hmem p hp)).trans (h.registered p hp), fun p hp hold ↦ ?_,
    new ++ new', by rw [hlog', hlog, List.append_assoc], fun e he ↦ ?_⟩
  · by_cases hmid : p ∈ t.sockets
    · rw [h'.memory p (Server.mem_holders hmid)]
      exact h.fresh p hmid hold
    · exact h'.fresh p hp hmid
  · rcases List.mem_append.1 he with he | he
    · exact hnew e he
    · refine (hnew' e he).imp_right ?_
      rintro ⟨p, hp, rfl⟩
      exact ⟨p, fun hmem ↦ hp (h.sockets.subset hmem), rfl⟩

theorem Inv.acceptOne {s : Server} (h : Inv s) (a : Accepted) : Grown s (s.acceptOne a) := by
  obtain ⟨p, hp, he, hcases⟩ := acceptOne_cases h.sound a
  generalize s.acceptOne a = t at he hcases
  have hne : ∀ q, some q ∈ holders s.members → q ≠ p := fun q hq hqp ↦ hp (hqp ▸ hq)
  have hpold : p ∉ s.sockets := fun hmem ↦ hp (some_mem_holders.2 (.inr hmem))
  rcases hcases with ⟨hq, hs⟩ | ⟨hj, hs⟩
  · obtain ⟨new, hlog, hnew⟩ := hq.log
    exact ⟨⟨hq.members ▸ hs, h.lists.quiet hq⟩, hq.sockets ▸ List.prefix_rfl,
      hq.sendSockets, hq.disconnectedSockets, fun q hq' ↦ he.memory q (hne q hq'),
      fun q hq' ↦ he.registered q (hne q hq'), fun q hq' hold ↦ absurd (hq.sockets ▸ hq') hold,
      new, hlog, fun e he ↦ .inl (hnew e he)⟩
  · have hsockets := hj.sockets.trans (addUnique_of_notMem hpold)
    have hmembers : t.members = insert p s.members := by
      ext q
      simp [Server.members, hsockets, or_comm]
    obtain ⟨new, hlog, hnew⟩ := hj.log
    rw [List.append_assoc] at hlog
    refine ⟨⟨hmembers ▸ hs, h.lists.joined hpold hj⟩, hsockets ▸ List.prefix_append _ _,
      hj.sendSockets, hj.disconnectedSockets, fun q hq ↦ he.memory q (hne q hq),
      fun q hq ↦ he.registered q (hne q hq), fun q hq hold ↦ ?_, new ++ [.accepted p], hlog,
      fun e he ↦ ?_⟩
    · rw [hsockets] at hq
      rcases List.mem_append.1 hq with hq | hq
      · exact absurd hq hold
      · exact List.mem_singleton.1 hq ▸ hj.socket
    · rcases List.mem_append.1 he with he | he
      · exact .inl (hnew e he)
      · exact .inr ⟨p, hpold, List.mem_singleton.1 he⟩

theorem Grown.refl {s : Server} (h : Inv s) : Grown s s :=
  ⟨h, List.prefix_rfl, rfl, rfl, fun _ _ ↦ rfl, fun _ _ ↦ rfl, fun _ hp hold ↦ absurd hp hold, [],
    (List.append_nil _).symm, by nofun⟩

theorem Grown.emit {s t : Server} (h : Grown s t) {e : Event} (he : e.silent) :
    Grown s (t.emit e) := by
  obtain ⟨new, hlog, hnew⟩ := h.log
  refine ⟨h.inv.emit he.passive, h.sockets, h.sendSockets, h.disconnectedSockets, h.memory,
    h.registered, h.fresh, new ++ [e], ?_, ?_⟩
  · show t.log ++ [e] = _
    rw [hlog, List.append_assoc]
  · intro e' he'
    rcases List.mem_append.1 he' with he' | he'
    · exact hnew e' he'
    · exact .inl (List.mem_singleton.1 he' ▸ he)

theorem Inv.acceptAll {s : Server} (h : Inv s) (accepts : List Accepted) :
    Grown s (accepts.foldl Server.acceptOne s) := by
  induction accepts generalizing s with
  | nil => exact .refl h
  | cons a accepts ih => exact (h.acceptOne a).trans (ih (h.acceptOne a).inv)

theorem Inv.acceptLoop {s : Server} (h : Inv s) (accepts : List Accepted) (ended : Errno) :
    Grown s (s.acceptLoop accepts ended) := by
  unfold Server.acceptLoop
  rw [ite_self]
  exact (h.acceptAll accepts).emit trivial

end Accepting

section Poll

namespace Server

def polledEvents (env : PollEnv) (s : Server) : List EpollEvent :=
  if s.efd < 0 then []
  else match env.wait with
    | none => []
    | some events => ((s.deleteDisconnected env).emit (.system .epollWait)).reportable events

def dispatched (env : PollEnv) (s : Server) : Bool × Server :=
  (s.polledEvents env).foldl dispatch (false, (s.deleteDisconnected env).emit (.system .epollWait))

theorem poll_eq (env : PollEnv) (s : Server) (hefd : ¬ s.efd < 0) :
    s.poll env = if (s.dispatched env).1
      then (s.dispatched env).2.acceptLoop env.accepts env.ended else (s.dispatched env).2 := by
  unfold poll dispatched polledEvents
  rw [if_neg hefd, if_neg hefd]
  cases env.wait with
  | none => rfl
  | some events => rfl

end Server

structure Polled (s t : Server) : Prop where
  inv : Inv t
  sockets : s.sockets <+: t.sockets
  sendSockets : s.sendSockets <+: t.sendSockets
  memory : ∀ p, some p ∈ holders s.members → t.memory p = s.memory p
  registered : ∀ p, some p ∈ holders s.members →
    t.registered.filter (·.ptr = p) = s.registered.filter (·.ptr = p)

theorem Dispatched.polled {s t u : Server} (hd : Dispatched s t) (hg : Grown t u) : Polled s u := by
  have hm : t.members = s.members := by rw [Server.members, Server.members, hd.sockets]
  have hmemory : t.memory = s.memory := congrArg Resources.memory hd.resources
  have hregistered : t.registered = s.registered := congrArg Resources.registered hd.resources
  refine ⟨hg.inv, hd.sockets ▸ hg.sockets, hg.sendSockets ▸ hd.sends, ?_, ?_⟩
  · intro p hp
    rw [hg.memory p (hm ▸ hp), hmemory]
  · intro p hp
    rw [hg.registered p (hm ▸ hp), hregistered]

theorem polledEvents_known {s : Server} (env : PollEnv)
    (h : Inv ((s.deleteDisconnected env).emit (.system .epollWait))) :
    ∀ event ∈ s.polledEvents env, event.ptr ∈ ((s.deleteDisconnected env).emit
      (.system .epollWait)).sockets ∨ event.ptr = .listener := by
  unfold Server.polledEvents
  split
  · nofun
  · cases env.wait with
    | none => nofun
    | some events => exact reportable_known h events

theorem Inv.poll_open {s : Server} (h : Inv s) (env : PollEnv) (hefd : ¬ s.efd < 0) :
    Polled (s.deleteDisconnected env) (s.poll env) := by
  have hwait : Inv ((s.deleteDisconnected env).emit (.system .epollWait)) :=
    (h.deleteDisconnected env).inv.emit trivial
  have hd : Dispatched _ (s.dispatched env).2 :=
    hwait.dispatchAll false _ (polledEvents_known env hwait)
  have hp : Polled ((s.deleteDisconnected env).emit (.system .epollWait)) (s.poll env) := by
    rw [s.poll_eq env hefd]
    refine hd.polled ?_
    split
    · exact hd.inv.acceptLoop env.accepts env.ended
    · exact .refl hd.inv
  exact ⟨hp.inv, hp.sockets, hp.sendSockets, hp.memory, hp.registered⟩

/-- Behind a `poll()` exactly those clients are scheduled for deletion for which
its `epoll_wait` has reported an error. -/
theorem Inv.poll_disconnected {s : Server} (h : Inv s) (env : PollEnv) (hefd : ¬ s.efd < 0)
    (a : ℕ) : .client a ∈ (s.poll env).disconnectedSockets ↔ ∃ event ∈ s.polledEvents env,
      event.ptr = .client a ∧ (event.err || event.hup) = true := by
  have hpurged := h.deleteDisconnected env
  have hwait : Inv ((s.deleteDisconnected env).emit (.system .epollWait)) :=
    hpurged.inv.emit trivial
  have hd : Dispatched _ (s.dispatched env).2 :=
    hwait.dispatchAll false _ (polledEvents_known env hwait)
  have hlist : (s.poll env).disconnectedSockets = (s.dispatched env).2.disconnectedSockets := by
    rw [s.poll_eq env hefd]
    split
    · exact (hd.inv.acceptLoop env.accepts env.ended).disconnectedSockets
    · rfl
  have hstart : .client a ∉
      ((s.deleteDisconnected env).emit (.system .epollWait)).disconnectedSockets :=
    hpurged.disconnectedSockets ▸ List.not_mem_nil
  rw [hlist, Server.dispatched, dispatchAll_disconnected, or_iff_right hstart]

theorem Inv.poll {s : Server} (h : Inv s) (env : PollEnv) : Inv (s.poll env) := by
  by_cases hefd : s.efd < 0
  · rwa [Server.poll, if_pos hefd]
  · exact (h.poll_open env hefd).inv

end Poll

end LowLatency.TCPServer
