import LowLatency.TCPServer.Table

namespace LowLatency.TCPServer

open Library.Handles Library.Runs SocketUtils TCPSocket Function

section Poll

variable {T : Table} {s t : Server} {a : ℕ}

theorem Elsewhere.registered_mem {p q : Ptr} {e : Registration} (h : Elsewhere p s t) (hq : q ≠ p)
    (he : e ∈ t.registered) (hptr : e.ptr = q) : e ∈ s.registered := by
  have hmem : e ∈ t.registered.filter (·.ptr = q) := List.mem_filter.2 ⟨he, decide_eq_true hptr⟩
  rw [h.registered q hq] at hmem
  exact (List.mem_filter.1 hmem).1

theorem Table.doomAll_clients (failed : List ℕ) (T : Table) :
    (failed.foldl doom T).clients = T.clients := by
  induction failed generalizing T with
  | nil => rfl
  | cons a failed ih => exact ih (T.doom a)

theorem Table.doomAll_listening (failed : List ℕ) (T : Table) :
    (failed.foldl doom T).listening = T.listening := by
  induction failed generalizing T with
  | nil => rfl
  | cons a failed ih => exact ih (T.doom a)

theorem EpollEvent.failed_ptr {event : EpollEvent} (h : event.failed = some a) :
    event.ptr = .client a := by
  unfold EpollEvent.failed at h
  split at h
  next c hptr =>
    split at h
    · rw [hptr, Option.some.inj h]
    · cases h
  next => cases h

theorem polledEvents_registered {env : PollEnv} {event : EpollEvent}
    (h : event ∈ s.polledEvents env) :
    ∃ e ∈ (s.deleteDisconnected env).registered, e.ptr = event.ptr := by
  unfold Server.polledEvents at h
  split at h
  · cases h
  cases hwait : env.wait with
  | none =>
    rw [hwait] at h
    cases h
  | some events =>
    rw [hwait] at h
    obtain ⟨hmem, hany⟩ := List.mem_filter.1 (List.mem_of_mem_take h)
    obtain ⟨e, he, heq⟩ := List.any_eq_true.1 hany
    rw [Bool.and_eq_true, decide_eq_true_eq, decide_eq_true_eq] at heq
    exact ⟨e, he, heq.2⟩

theorem epollAdd_ok (ok : Bool) {p : Ptr} (hefd : 0 ≤ s.efd) (hp : p ≠ .null)
    (hfd : 0 ≤ (s.memory p).fd) : (s.epollAdd ok p).1 = ok := by
  unfold Server.epollAdd
  rw [if_neg (by simp [hefd, hp, hfd])]
  cases ok <;> rfl

theorem addClient_length {p : Ptr} (hefd : 0 ≤ s.efd) (hp : p ≠ .null)
    (hfd : 0 ≤ (s.memory p).fd) (hnew : p ∉ s.sockets) (ok : Bool) :
    (s.addClient ok p).sockets.length = s.sockets.length + if ok then 1 else 0 := by
  have hok := epollAdd_ok ok hefd hp hfd
  have hq := Quiet.epollAdd ok p s
  unfold Server.addClient
  generalize s.epollAdd ok p = r at hok hq
  obtain ⟨ok', t⟩ := r
  dsimp only at hok hq ⊢
  subst hok
  cases ok' with
  | false =>
    rw [← hq.sockets]
    exact congrArg List.length (Quiet.deleteSocket p t).sockets
  | true =>
    show (addUnique t.sockets p).length = _
    rw [hq.sockets, addUnique_of_notMem hnew, List.length_append]
    rfl

theorem acceptOne_length (h : Inv s) (hefd : 0 ≤ s.efd) (a : Accepted) :
    (s.acceptOne a).sockets.length = s.sockets.length + if a.joins then 1 else 0 := by
  have hconfigured : ((setNonBlocking a.fcntl).1 && (setNoDelay a.setsockopt).1 && a.epollCtl) =
      a.joins := by
    unfold setNonBlocking setNoDelay setOption Accepted.joins
    rcases a.fcntl with ⟨_ | _ | _, _ | _⟩ <;> cases a.setsockopt <;> rfl
  have hnew : .client (unused s.allocated a.address) ∉ s.sockets := by
    intro hmem
    obtain ⟨c, hc, heq⟩ := (h.sound.owned_iff _).1 hmem
    exact unused_notMem s.allocated a.address (Ptr.client.inj heq ▸ hc)
  rw [← hconfigured]
  unfold Server.acceptOne
  dsimp only
  cases hok : (setNonBlocking a.fcntl).1 && (setNoDelay a.setsockopt).1 with
  | false =>
    rw [if_pos (by rw [← Bool.not_and, hok, Bool.not_false]), Bool.false_and]
    rfl
  | true =>
    rw [if_neg (by rw [← Bool.not_and, hok]; exact Bool.false_ne_true), Bool.true_and]
    refine addClient_length (s := { ((s.opened _).emit _).emit _ with
      memory := update s.memory _ _, allocated := _ }) hefd Ptr.noConfusion ?_ hnew a.epollCtl
    show 0 ≤ (update s.memory (.client (unused s.allocated a.address)) _
      (.client (unused s.allocated a.address))).fd
    rw [update_self]
    exact s.newFd_nonneg a.fd

theorem dispatch_mild {event : EpollEvent} (hmild : (event.err || event.hup) = false) (b : Bool) :
    (Server.dispatch (b, s) event).2.resources = s.resources ∧
      (Server.dispatch (b, s) event).2.sockets = s.sockets ∧
      (Server.dispatch (b, s) event).2.disconnectedSockets = s.disconnectedSockets ∧
      observed (Server.dispatch (b, s) event).2.log = observed s.log := by
  unfold Server.dispatch
  dsimp only
  rw [hmild]
  split
  · exact ⟨rfl, rfl, rfl, rfl⟩
  rw [if_neg Bool.false_ne_true]
  split
  · exact ⟨rfl, rfl, rfl, rfl⟩
  cases event.readable <;> cases event.writable <;> by_cases hp : event.ptr = .listener <;>
    simp [hp, Server.emit, observed, observe, Server.resources]

namespace Represents

theorem deleteDisconnected (h : Represents T s) (env : PollEnv) :
    Represents T.purge (s.deleteDisconnected env) ∧
      observed (s.deleteDisconnected env).log = observed s.log := by
  have hp := h.inv.deleteDisconnected env
  rw [h.doomed] at hp
  have hnot : ∀ a, .client a ∉ T.doomed.map Ptr.client ↔ a ∉ T.doomed := fun a ↦
    not_congr (List.mem_map_of_injective client_injective)
  have hstay : ∀ a ∈ T.purge.clients, a ∈ T.clients ∧ .client a ∉ T.doomed.map Ptr.client := by
    intro a ha
    obtain ⟨ha, hd⟩ := List.mem_filter.1 ha
    exact ⟨ha, (hnot a).2 (of_decide_eq_true hd)⟩
  have hclients : (s.deleteDisconnected env).sockets = T.purge.clients.map .client := by
    have hsockets : (s.deleteDisconnected env).sockets =
        s.sockets.filter (· ∉ T.doomed.map Ptr.client) := hp.sockets
    rw [hsockets, h.clients, List.filter_map]
    congr 1
    apply List.filter_congr
    intro a _
    exact decide_eq_decide.2 (hnot a)
  refine ⟨⟨hp.inv, hp.efd ▸ h.listening, hclients, ?_, ?_, ?_, ?_⟩, ?_⟩
  · intro a ha
    rw [hp.memory _ (hstay a ha).2]
    exact h.session a (hstay a ha).1
  · intro a ha
    rw [hp.memory _ (hstay a ha).2]
    exact h.bounded a (hstay a ha).1
  · rw [hp.disconnectedSockets]
    rfl
  · intro e he a hptr
    have hmem : .client a ∈ (s.deleteDisconnected env).sockets :=
      (some_mem_holders.1 (hptr ▸ hp.inv.sound.registered_ptr he)).resolve_left Ptr.noConfusion
    rw [hclients, List.mem_map_of_injective client_injective] at hmem
    have hreg : e ∈ (s.deleteDisconnected env).registered.filter (·.ptr = .client a) :=
      List.mem_filter.2 ⟨he, decide_eq_true hptr⟩
    rw [hp.registered _ (hstay a hmem).2] at hreg
    exact List.mem_filter.2 ⟨h.watched e (List.mem_filter.1 hreg).1 a hptr,
      decide_eq_true ((hnot a).1 (hstay a hmem).2)⟩
  · obtain ⟨new, hlog, -, hnew⟩ := hp.log
    rw [hlog, observed_append, observed_nil fun e he ↦ (hnew e he).observe, List.append_nil]
    exact (observed_append s.log [.polled]).trans (List.append_nil _)

theorem dispatch (h : Represents T s) {event : EpollEvent}
    (hp : event.ptr ∈ s.sockets ∨ event.ptr = .listener) (b : Bool) :
    Represents (event.failed.toList.foldl Table.doom T) (Server.dispatch (b, s) event).2 ∧
      observed (Server.dispatch (b, s) event).2.log = observed s.log := by
  have hinv := h.inv.dispatch hp b
  cases hbad : event.err || event.hup with
  | false =>
    have hnone : event.failed = none := by
      unfold EpollEvent.failed
      split
      · rw [hbad, if_neg Bool.false_ne_true]
      · rfl
    obtain ⟨hresources, hsockets, hdoomed, hlog⟩ := dispatch_mild (s := s) hbad b
    have hmemory := congrArg Resources.memory hresources
    have hregistered : (Server.dispatch (b, s) event).2.registered = s.registered :=
      congrArg Resources.registered hresources
    rw [hnone]
    exact ⟨h.congr hinv (congrArg Resources.efd hresources) hsockets
      (fun a _ ↦ congrFun hmemory (.client a)) (hdoomed ▸ rfl) fun e he _ _ ↦ hregistered ▸ he, hlog⟩
  | true =>
    rcases hp with hp | hp
    · obtain ⟨a, -, hptr⟩ := (h.inv.sound.owned_iff event.ptr).1 hp
      have hfailed : event.failed = some a := by
        rw [EpollEvent.failed, hptr, hbad]
        exact if_pos rfl
      have heq : (Server.dispatch (b, s) event).2 = { s.emit (.reported (.client a)) with
          disconnectedSockets := addUnique s.disconnectedSockets (.client a) } := by
        simp [Server.dispatch, hptr, hbad]
      rw [heq] at hinv ⊢
      rw [hfailed]
      exact ⟨h.doom hinv, (observed_append s.log _).trans (List.append_nil _)⟩
    · have hnone : event.failed = none := by
        rw [EpollEvent.failed, hp]
      have heq : (Server.dispatch (b, s) event).2 = s := by
        simp [Server.dispatch, hp, hbad]
      rw [heq, hnone]
      exact ⟨h, rfl⟩

/-- A new client joins the table with a fresh session. -/
theorem joined (h : Represents T s) (hinv : Inv t) (helse : Elsewhere (.client a) s t)
    (hj : Joined (.client a) s t) (hnew : a ∉ T.clients) (hfd : 0 ≤ (t.memory (.client a)).fd) :
    Represents (T.join a) t ∧ observed t.log = observed s.log ++ [.joined a] := by
  obtain ⟨sendBuffer, rcvBuffer, fd, hsocket⟩ := hj.socket
  obtain ⟨new, hlog, hsilent⟩ := hj.log
  rw [hsocket] at hfd
  have hother : ∀ b ∈ (T.join a).clients, b ≠ a → b ∈ T.clients := fun b hb hba ↦
    (List.mem_append.1 hb).resolve_right (mt List.mem_singleton.1 hba)
  have hsession : ∀ b ∈ (T.join a).clients, (t.memory (.client b)).session =
      (T.join a).session b ∧ (t.memory (.client b)).nextSendValidIndex ≤ tcpBufferSize := by
    intro b hb
    unfold Table.join Table.put
    dsimp only
    rcases eq_or_ne b a with rfl | hba
    · rw [hsocket, update_self]
      exact ⟨by simp [Socket.session, hfd, Session.fresh, Session.closed, Socket.new,
        Socket.pending, Socket.unread], Nat.zero_le _⟩
    · have hb := hother b hb hba
      rw [helse.memory _ (client_injective.ne hba), update_of_ne hba]
      exact ⟨h.session b hb, h.bounded b hb⟩
  refine ⟨⟨hinv, hj.efd ▸ h.listening, ?_, fun b hb ↦ (hsession b hb).1,
    fun b hb ↦ (hsession b hb).2, hj.disconnectedSockets ▸ h.doomed, ?_⟩, ?_⟩
  · rw [hj.sockets, addUnique_of_notMem (mt h.mem_iff.1 hnew), h.clients,
      show (T.join a).clients = T.clients ++ [a] from rfl, List.map_append]
    rfl
  · intro e he b hptr
    rcases eq_or_ne b a with rfl | hba
    · exact List.mem_append_right _ (List.mem_singleton_self _)
    · apply List.mem_append_left
      exact h.watched e (helse.registered_mem (client_injective.ne hba) he hptr) b hptr
  · rw [hlog, observed_append, observed_append,
      observed_nil fun e he ↦ (hsilent e he).observe, List.append_nil]
    rfl

theorem acceptOne (h : Represents T s) (hlistening : T.listening = true) (accepted : Accepted) :
    accepted.joins = false ∧ Represents T (s.acceptOne accepted) ∧
        observed (s.acceptOne accepted).log = observed s.log ∨
      accepted.joins = true ∧ ∃ a ∉ T.clients, Represents (T.join a) (s.acceptOne accepted) ∧
        observed (s.acceptOne accepted).log = observed s.log ++ [.joined a] := by
  have hlength := acceptOne_length h.inv
    (of_decide_eq_true (h.listening.symm.trans hlistening)) accepted
  have hinv := (h.inv.acceptOne accepted).inv
  have hopen := fun q ↦ acceptOne_open (s := s) (a := accepted) (q := q)
  obtain ⟨p, hp, helse, hcases⟩ := acceptOne_cases h.inv.sound accepted
  generalize s.acceptOne accepted = t at hlength hinv hopen helse hcases
  have hne : ∀ a ∈ T.clients, .client a ≠ p := fun a ha heq ↦ hp (heq ▸ h.holder ha)
  rcases hcases with ⟨hq, hs⟩ | ⟨hj, hs⟩
  · refine .inl ⟨?_, h.congr hinv hq.efd hq.sockets (fun a ha ↦ helse.memory _ (hne a ha))
      (hq.disconnectedSockets ▸ rfl) ?_, hq.observed⟩
    · rw [hq.sockets] at hlength
      cases hjoins : accepted.joins with
      | false => rfl
      | true => simp [hjoins] at hlength
    · intro e he a hptr
      refine helse.registered_mem (q := .client a) ?_ he hptr
      rintro rfl
      exact hp (hptr ▸ hs.registered_ptr he)
  · obtain ⟨a, -, rfl⟩ := (hs.owned_iff p).1 (Set.mem_insert p _)
    have hnew : a ∉ T.clients := fun ha ↦ hne a ha rfl
    have hold : .client a ∉ s.sockets := mt h.mem_iff.1 hnew
    have hsockets := hj.sockets.trans (addUnique_of_notMem hold)
    have hfd := (hopen (.client a) (by simp [hsockets])).resolve_left hold
    refine .inr ⟨?_, a, hnew, h.joined hinv helse hj hnew hfd⟩
    cases hjoins : accepted.joins with
    | false => simp [hjoins, hsockets] at hlength
    | true => rfl

theorem dispatchAll (h : Represents T s) (events : List EpollEvent)
    (hp : ∀ event ∈ events, event.ptr ∈ s.sockets ∨ event.ptr = .listener) (b : Bool) :
    Represents ((events.filterMap EpollEvent.failed).foldl Table.doom T)
        (events.foldl Server.dispatch (b, s)).2 ∧
      observed (events.foldl Server.dispatch (b, s)).2.log = observed s.log := by
  induction events generalizing T s b with
  | nil => exact ⟨h, rfl⟩
  | cons event events ih =>
    have hd := h.inv.dispatched (hp event List.mem_cons_self) b
    obtain ⟨ht, hlog⟩ := h.dispatch (hp event List.mem_cons_self) b
    rw [List.foldl_cons]
    generalize Server.dispatch (b, s) event = r at hd hlog ht
    obtain ⟨b', t⟩ := r
    have hrest : ∀ e ∈ events, e.ptr ∈ t.sockets ∨ e.ptr = .listener := by
      intro e he
      rw [hd.sockets]
      exact hp e (List.mem_cons_of_mem _ he)
    obtain ⟨hr, hlog'⟩ := ih ht hrest b'
    refine ⟨?_, hlog'.trans hlog⟩
    rw [List.filterMap_cons]
    cases hfailed : event.failed with
    | none => rwa [hfailed] at hr
    | some a => rwa [hfailed] at hr

theorem acceptAll (h : Represents T s) (hlistening : T.listening = true)
    (accepts : List Accepted) :
    ∃ joined : List ℕ, joined.length = accepts.countP Accepted.joins ∧ joined.Nodup ∧
      (∀ a ∈ joined, a ∉ T.clients) ∧
      Represents (joined.foldl Table.join T) (accepts.foldl Server.acceptOne s) ∧
      observed (accepts.foldl Server.acceptOne s).log = observed s.log ++ joined.map .joined := by
  induction accepts generalizing T s with
  | nil => exact ⟨[], rfl, List.nodup_nil, by simp, h, (List.append_nil _).symm⟩
  | cons accepted accepts ih =>
    rcases h.acceptOne hlistening accepted with ⟨hjoins, ht, hlog⟩ | ⟨hjoins, a, ha, ht, hlog⟩
    · obtain ⟨joined, hlen, hnodup, hnew, hr, hlog'⟩ := ih ht hlistening
      refine ⟨joined, ?_, hnodup, hnew, hr, by rw [List.foldl_cons, hlog', hlog]⟩
      rw [hlen, List.countP_cons_of_neg (by simp [hjoins])]
    · obtain ⟨joined, hlen, hnodup, hnew, hr, hlog'⟩ := ih ht hlistening
      have hold : ∀ c ∈ joined, c ∉ T.clients ∧ c ≠ a := by
        intro c hc
        have hc := hnew c hc
        rw [show (T.join a).clients = T.clients ++ [a] from rfl, List.mem_append,
          List.mem_singleton, not_or] at hc
        exact hc
      refine ⟨a :: joined, ?_, ?_, ?_, hr, ?_⟩
      · rw [List.length_cons, hlen, List.countP_cons_of_pos hjoins]
      · exact List.nodup_cons.2 ⟨fun hmem ↦ (hold a hmem).2 rfl, hnodup⟩
      · intro c hc
        rcases List.mem_cons.1 hc with rfl | hc
        · exact ha
        · exact (hold c hc).1
      · rw [List.foldl_cons, hlog', hlog, List.append_assoc]
        rfl

theorem acceptLoop (h : Represents T s) (hlistening : T.listening = true)
    (accepts : List Accepted) (ended : Errno) :
    ∃ joined : List ℕ, joined.length = accepts.countP Accepted.joins ∧ joined.Nodup ∧
      (∀ a ∈ joined, a ∉ T.clients) ∧
      Represents (joined.foldl Table.join T) (s.acceptLoop accepts ended) ∧
      observed (s.acceptLoop accepts ended).log = observed s.log ++ joined.map .joined := by
  obtain ⟨joined, hlen, hnodup, hnew, hr, hlog⟩ := h.acceptAll hlistening accepts
  unfold Server.acceptLoop
  rw [ite_self]
  refine ⟨joined, hlen, hnodup, hnew, hr.emit (hr.inv.emit (e := .system .accept) trivial), ?_⟩
  rw [← hlog]
  exact (Quiet.emit (.system .accept) trivial _).observed

/-- A `poll()` purges the doomed clients, dooms those that were reported and
lets new ones join. -/
theorem poll (h : Represents T s) (env : PollEnv) :
    ∃ failed joined, Command.Of s (.poll env) (.poll failed joined) ∧
      T.Admits (.poll failed joined) ∧ Represents (T.poll failed joined).2 (s.poll env) ∧
      observed (s.poll env).log = observed s.log ++ (T.poll failed joined).1 := by
  by_cases hefd : s.efd < 0
  · have hclosed : ¬ T.listening = true := by
      rw [h.listening]
      simpa using hefd
    have hnone : s.polledEvents env = [] := if_pos hefd
    refine ⟨[], [], ⟨by rw [hnone]; rfl, by rw [hnone]; rfl⟩, ⟨by simp, List.nodup_nil, by simp⟩, ?_⟩
    rw [Table.poll, if_neg hclosed, Server.poll, if_pos hefd]
    exact ⟨h, (List.append_nil _).symm⟩
  have hopen : T.listening = true := h.listening.trans (decide_eq_true (not_lt.1 hefd))
  obtain ⟨hpurge, hlog⟩ := h.deleteDisconnected env
  have hwait := hpurge.emit (e := .system .epollWait) (hpurge.inv.emit trivial)
  obtain ⟨hd, hlog'⟩ :=
    hwait.dispatchAll (s.polledEvents env) (polledEvents_known env hwait.inv) false
  have hwatched : ∀ a ∈ (s.polledEvents env).filterMap EpollEvent.failed, a ∈ T.purge.watched := by
    intro a ha
    obtain ⟨event, hevent, hfailed⟩ := List.mem_filterMap.1 ha
    obtain ⟨e, he, heq⟩ := polledEvents_registered hevent
    exact hpurge.watched e he a (heq.trans (EpollEvent.failed_ptr hfailed))
  have hseen : observed (s.dispatched env).2.log = observed s.log :=
    hlog'.trans ((Quiet.emit (.system .epollWait) trivial _).observed.trans hlog)
  have hdispatched : (s.dispatched env).1 = listenerAcceptable (s.polledEvents env) :=
    dispatched_fst env s
  generalize hfailed : (s.polledEvents env).filterMap EpollEvent.failed = failed at hd hwatched
  have hjoined : ∃ joined : List ℕ, (joined.length = if listenerAcceptable (s.polledEvents env)
        then env.accepts.countP Accepted.joins else 0) ∧ joined.Nodup ∧
      (∀ a ∈ joined, a ∉ (failed.foldl Table.doom T.purge).clients) ∧
      Represents (joined.foldl Table.join (failed.foldl Table.doom T.purge)) (s.poll env) ∧
      observed (s.poll env).log = observed s.log ++ joined.map .joined := by
    rw [s.poll_eq env hefd, ← hseen, ← hdispatched]
    split
    · exact Represents.acceptLoop hd (Table.doomAll_listening failed T.purge ▸ hopen) env.accepts
        env.ended
    · exact ⟨[], rfl, List.nodup_nil, by simp, hd, (List.append_nil _).symm⟩
  obtain ⟨joined, hlen, hnodup, hnew, hr, hnotes⟩ := hjoined
  rw [Table.doomAll_clients] at hnew
  refine ⟨failed, joined, ⟨hfailed.symm, hlen⟩, ⟨hwatched, hnodup, hnew⟩, ?_⟩
  rw [Table.poll, if_pos hopen]
  exact ⟨hr, hnotes⟩

end Represents

end Poll

section Lifetime

variable {T : Table} {s : Server}

theorem destroy_efd (s : Server) : s.destroy.efd < 0 := by
  unfold Server.destroy
  dsimp only
  rw [(Quiet.destroySocket .listener _).efd]
  unfold Server.closeEpoll
  split
  · exact Int.negSucc_lt_zero 0
  next h => exact not_le.1 h

theorem observed_destroy (s : Server) : observed s.destroy.log = observed s.log := by
  have hall := (Quiet.deleteAll s.sockets s).observed
  unfold Server.destroy
  generalize s.sockets.foldl (fun s p ↦ s.deleteSocket p) s = t at hall
  dsimp only
  rw [(Quiet.destroySocket .listener _).observed, ← hall]
  refine (closeEpoll_quiet (t.clearLists.emit .destroyed)).observed.trans ?_
  exact (observed_append t.log [.destroyed]).trans (List.append_nil _)

theorem listen_opens (s : Server) (env : ListenEnv) :
    (0 ≤ (s.listen env).2.efd ↔
        (env.epollCreate.isSome && env.createSocket.isSome && env.epollCtl) = true) ∧
      observed (s.listen env).2.log = observed s.log := by
  obtain ⟨epollCreate, createSocket, epollCtl⟩ := env
  have hstart : observed (s.destroy.emit (.system .epollCreate)).log = observed s.log :=
    (Quiet.emit (.system .epollCreate) trivial _).observed.trans (observed_destroy s)
  unfold Server.listen
  dsimp only
  generalize s.destroy.emit (.system .epollCreate) = t at hstart
  cases epollCreate with
  | none => exact ⟨by simp, hstart⟩
  | some hint =>
    have hefd : 0 ≤ { t.opened (t.newFd hint) with efd := t.newFd hint }.efd :=
      t.newFd_nonneg hint
    have hlog : observed { t.opened (t.newFd hint) with efd := t.newFd hint }.log =
        observed s.log := hstart
    dsimp only
    generalize { t.opened (t.newFd hint) with efd := t.newFd hint } = u at hefd hlog
    have hq := Quiet.connectSocket .listener createSocket u
    obtain ⟨fd, hmemory, hfd⟩ := connectSocket_memory .listener createSocket u
    have hlistener : ((u.connectSocket .listener createSocket).memory .listener).fd = fd := by
      rw [hmemory, update_self]
      rfl
    rw [← hq.efd] at hefd
    rw [← hq.observed] at hlog
    generalize u.connectSocket .listener createSocket = v at hq hlistener hefd hlog
    rw [← hlistener] at hfd
    cases createSocket with
    | none =>
      rw [if_pos (not_le.1 (of_decide_eq_false hfd))]
      exact ⟨iff_of_false (not_le.2 (destroy_efd v)) (by simp), (observed_destroy v).trans hlog⟩
    | some created =>
      have hfd := of_decide_eq_true hfd
      have hq' := Quiet.epollAdd epollCtl .listener v
      rw [if_neg (not_lt.2 hfd), epollAdd_ok _ hefd Ptr.noConfusion hfd]
      generalize (v.epollAdd epollCtl .listener).2 = w at hq'
      rw [← hq'.efd] at hefd
      rw [← hq'.observed] at hlog
      cases epollCtl with
      | true => exact ⟨iff_of_true hefd rfl, hlog⟩
      | false =>
        exact ⟨iff_of_false (not_le.2 (destroy_efd w)) (by simp), (observed_destroy w).trans hlog⟩

theorem Represents.of_nil (hinv : Inv s) (hnil : s.sockets = []) :
    Represents (.empty (decide (0 ≤ s.efd))) s := by
  refine ⟨hinv, rfl, hnil, by simp [Table.empty], by simp [Table.empty], ?_, ?_⟩
  · apply List.filter_eq_nil_iff.2
    intro p hp
    have hl := (hinv.lists.disconnected_known p hp).resolve_left (by simp [hnil])
    simp [hl.1]
  · intro e he a hptr
    have hmem : .client a ∈ s.sockets :=
      (some_mem_holders.1 (hptr ▸ hinv.sound.registered_ptr he)).resolve_left Ptr.noConfusion
    rw [hnil] at hmem
    cases hmem

theorem Represents.call (h : Represents T s) (op : Op) :
    ∃ command notes T', Command.Of s op command ∧ T.Step (command, notes) T' ∧
      Represents T' (s.call op) ∧ observed (s.call op).log = observed s.log ++ notes := by
  cases op with
  | listen env =>
    obtain ⟨hopens, hlog⟩ := listen_opens s env
    obtain ⟨hinv, hnil, -⟩ := h.inv.listen env
    have hr := Represents.of_nil hinv hnil
    rw [Bool.eq_iff_iff.2 (decide_eq_true_iff.trans hopens)] at hr
    exact ⟨.listen _, [], _, rfl, ⟨trivial, rfl⟩, hr, hlog.trans (List.append_nil _).symm⟩
  | poll env =>
    obtain ⟨failed, joined, hof, hadmits, hr, hlog⟩ := h.poll env
    exact ⟨.poll failed joined, _, _, hof, ⟨hadmits, rfl⟩, hr, hlog⟩
  | sendAndRecv env =>
    obtain ⟨hr, hlog⟩ := h.sendAndRecv env
    exact ⟨.sendAndRecv env.visit, _, _, rfl, ⟨trivial, rfl⟩, hr, hlog⟩
  | destroy =>
    have hr := Represents.of_nil h.inv.destroy.inv h.inv.destroy.sockets
    rw [decide_eq_false (not_le.2 (destroy_efd s))] at hr
    exact ⟨.destroy, [], _, trivial, ⟨trivial, rfl⟩, hr,
      (observed_destroy s).trans (List.append_nil _).symm⟩

theorem Represents.calls (h : Represents T s) (ops : List Op) :
    ∃ (labels : List (Command × List Note)) (T' : Table), Run Table.Step T labels T' ∧
      Commands s ops labels ∧ Represents T' (ops.foldl Server.call s) ∧
      observed (ops.foldl Server.call s).log = observed s.log ++ labels.flatMap Prod.snd := by
  induction ops generalizing T s with
  | nil => exact ⟨[], T, .nil, trivial, h, (List.append_nil _).symm⟩
  | cons op ops ih =>
    obtain ⟨command, notes, T', hof, hstep, hr, hlog⟩ := h.call op
    obtain ⟨labels, T'', hrun, hofs, hr', hlog'⟩ := ih hr
    refine ⟨(command, notes) :: labels, T'', .cons hstep hrun, ⟨hof, hofs⟩, hr', ?_⟩
    rw [List.foldl_cons, hlog', hlog, List.append_assoc, List.flatMap_cons]

/-- Buffers, pointers, descriptors and epoll are an implementation of a table of
sessions: whatever the kernel and the callbacks do, every run of the server is a
run of the table under the commands that the kernel's answers amount to, with
the same clients and byte queues at its end and the same joins, exchanges and
end-of-round callbacks on the way. -/
theorem server_refines_table (memory : Ptr → Socket) (ops : List Op) :
    ∃ (labels : List (Command × List Note)) (T : Table), Run Table.Step (.empty false) labels T ∧
      Commands (.new memory) ops labels ∧
      Represents T (run memory ops) ∧
      observed (run memory ops).log = labels.flatMap Prod.snd :=
  (Represents.of_nil (Idle.new memory).inv rfl).calls ops

end Lifetime

end LowLatency.TCPServer
