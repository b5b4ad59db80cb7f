import LowLatency.TCPServer.Ownership

namespace LowLatency.TCPServer

open Library.Handles SocketUtils TCPSocket Function

def Event.spares (p : Ptr) : Event → Prop
  | .accepted q => q ≠ p
  | .served q _ _ => q ≠ p
  | _ => True

theorem Event.silent.spares {e : Event} (h : e.silent) (p : Ptr) : e.spares p := by
  cases e <;> trivial

section History

variable {β : Type*} (p : Ptr) (step : β → Record → β) (start : β)

def recordStep (b : β) : Event → β
  | .accepted q => if q = p then start else b
  | .served q record _ => if q = p then step b record else b
  | _ => b

/-- What the services of `p` since its acceptance add up to. -/
def sinceAccepted (log : List Event) : β := log.foldl (recordStep p step start) start

theorem sinceAccepted_accepted (log : List Event) :
    sinceAccepted p step start (log ++ [.accepted p]) = start := by
  rw [sinceAccepted, List.foldl_concat]
  exact if_pos rfl

theorem sinceAccepted_served (log : List Event) (record : Record) (d : Bool) :
    sinceAccepted p step start (log ++ [.served p record d]) =
      step (sinceAccepted p step start log) record := by
  rw [sinceAccepted, List.foldl_concat]
  exact if_pos rfl

theorem sinceAccepted_spared (log : List Event) {e : Event} (he : e.spares p) :
    sinceAccepted p step start (log ++ [e]) = sinceAccepted p step start log := by
  rw [sinceAccepted, List.foldl_concat]
  cases e with
  | accepted q => exact if_neg he
  | served q record d => exact if_neg he
  | _ => rfl

theorem sinceAccepted_append (log : List Event) {new : List Event} (hnew : ∀ e ∈ new, e.spares p) :
    sinceAccepted p step start (log ++ new) = sinceAccepted p step start log := by
  induction new using List.reverseRecOn with
  | nil => rw [List.append_nil]
  | append_singleton new e ih =>
    rw [← List.append_assoc, sinceAccepted_spared p step start _ (hnew e (by simp))]
    exact ih fun e he ↦ hnew e (by simp [he])

end History

theorem marked_accepted (p q : Ptr) (log : List Event) :
    marked p (log ++ [.accepted q]) = marked p log := marked_concat p log _

theorem marked_spared {p : Ptr} {log : List Event} {e : Event} (he : e.spares p)
    (h : marked p (log ++ [e]) = true) :
    marked p log = true ∨ e = .reported p := by
  rw [marked_concat] at h
  cases e with
  | reported q => simpa [markStep] using h
  | served q record d =>
    have hne : q ≠ p := he
    left
    simpa [markStep, hne] using h
  | polled | destroyed => cases h
  | _ => exact .inl h

theorem Served.spares {p : Ptr} {record : Record} {d : Bool} {s t : Server}
    (h : Served p record d s t) : ∃ new, t.log = s.log ++ new ++ [.served p record d] ∧
      ∀ q, ∀ e ∈ new, e.spares q := by
  obtain ⟨new, hlog, hnew⟩ := h.events
  refine ⟨new, hlog, ?_⟩
  intro q e he
  rcases hnew e he with he | rfl
  · exact he.spares q
  · trivial

theorem callSocket_eq {s : Server} {p : Ptr} (hinv : Inv s) (hp : some p ∈ holders s.members)
    (env : RoundEnv) : s.callSocket env p =
      sendAndRecv (Server.place p) (env.io p) (fun _ ↦ Server.recvCallback env p) s := by
  rw [Server.callSocket, hinv.sound.touch hp]

theorem callSocket_elsewhere {s : Server} {env : RoundEnv} {p q : Ptr} (hinv : Inv s)
    (hp : some p ∈ holders s.members) (hq : q ≠ p)
    (hcb : ∀ s : Server, (s.recvCallback env p).memory q = s.memory q) :
    (s.callSocket env p).2.memory q = s.memory q := by
  rw [callSocket_eq hinv hp]
  rcases sendAndRecv_split (Server.place p) (env.io p) (fun _ ↦ Server.recvCallback env p) s
    (fun s t ↦ t.memory q = s.memory q) (fun _ ↦ rfl) (fun h h' ↦ h'.trans h)
    (fun s x _ ↦ s.place_set_elsewhere p x hq) with ⟨-, h⟩ | ⟨-, t, w, h, h'⟩
  · exact h
  · exact h'.trans ((hcb w).trans h)

theorem callSocket_listener {s : Server} (hinv : Inv s) (env : RoundEnv) {q : Ptr}
    (hq : q ≠ .listener) : (s.callSocket env .listener).2.memory q = s.memory q := by
  apply callSocket_elsewhere hinv (some_mem_holders.2 (.inl rfl)) hq
  intro s
  unfold Server.recvCallback
  rw [if_pos rfl]
  exact update_of_ne hq _ _

/-- A statement on a client and the history that is true of a new client and
that only its own services can make false. -/
structure PerClient (J : Ptr → Socket → List Event → Prop) : Prop where
  joined : ∀ p log sendBuffer rcvBuffer fd, marked p log = false →
    J p { Socket.new sendBuffer rcvBuffer with fd := fd } (log ++ [.accepted p])
  spared : ∀ p x log e, J p x log → e.spares p → J p x (log ++ [e])

def Server.Holds (J : Ptr → Socket → List Event → Prop) (s : Server) : Prop :=
  ∀ p ∈ s.sockets, J p (s.memory p) s.log

theorem Server.Holds.of_nil {J : Ptr → Socket → List Event → Prop} {s : Server}
    (h : s.sockets = []) : s.Holds J := by
  intro p hp
  rw [h] at hp
  cases hp

namespace PerClient

variable {J : Ptr → Socket → List Event → Prop} {s t : Server}

theorem append (hJ : PerClient J) {p : Ptr} {x : Socket} {log new : List Event} (h : J p x log)
    (hnew : ∀ e ∈ new, e.spares p) : J p x (log ++ new) := by
  induction new using List.reverseRecOn with
  | nil => rwa [List.append_nil]
  | append_singleton new e ih =>
    rw [← List.append_assoc]
    exact hJ.spared p x _ e (ih fun e he ↦ hnew e (by simp [he])) (hnew e (by simp))

theorem served_elsewhere (hJ : PerClient J) {p q : Ptr} {record : Record} {d : Bool} {x : Socket}
    (hs : Served p record d s t) (hq : q ≠ p) (h : J q x s.log) : J q x t.log := by
  obtain ⟨new, hlog, hnew⟩ := hs.spares
  rw [hlog]
  exact hJ.spared q x _ _ (hJ.append h (hnew q)) hq.symm

theorem emit (hJ : PerClient J) (h : s.Holds J) {e : Event} (he : ∀ p ∈ s.sockets, e.spares p) :
    (s.emit e).Holds J :=
  fun p hp ↦ hJ.spared p _ _ e (h p hp) (he p hp)

theorem quiet (hJ : PerClient J) (h : s.Holds J) (hq : Quiet s t)
    (hmem : ∀ p ∈ s.sockets, t.memory p = s.memory p) : t.Holds J := by
  obtain ⟨new, hlog, hnew⟩ := hq.log
  intro p hp
  rw [hq.sockets] at hp
  rw [hmem p hp, hlog]
  exact hJ.append (h p hp) fun e he ↦ (hnew e he).spares p

theorem deleteDisconnected (hJ : PerClient J) (h : s.Holds J) (hinv : Inv s) (env : PollEnv) :
    (s.deleteDisconnected env).Holds J := by
  have hpurged := hinv.deleteDisconnected env
  obtain ⟨new, hlog, -, hnew⟩ := hpurged.log
  intro p hp
  rw [hpurged.sockets] at hp
  obtain ⟨hp, hstay⟩ := List.mem_filter.1 hp
  rw [hpurged.memory p (of_decide_eq_true hstay), hlog]
  exact hJ.append (hJ.spared p _ _ .polled (h p hp) trivial) fun e he ↦ (hnew e he).spares p

theorem dispatch (hJ : PerClient J) (h : s.Holds J) (hinv : Inv s) {event : EpollEvent}
    (hp : event.ptr ∈ s.sockets ∨ event.ptr = .listener) (b : Bool) :
    (Server.dispatch (b, s) event).2.Holds J := by
  rw [← hinv.lists.receive_eq] at hp
  rcases dispatch_cases b hp with he | ⟨-, he⟩ | ⟨-, he⟩ | ⟨-, he⟩ <;> rw [he]
  · exact h
  · exact hJ.emit (e := .reported event.ptr) h fun _ _ ↦ trivial
  · exact h
  · exact hJ.emit (e := .listenerWritable) h fun _ _ ↦ trivial

theorem dispatchAll (hJ : PerClient J) (h : s.Holds J) (hinv : Inv s) (b : Bool)
    (events : List EpollEvent)
    (hp : ∀ event ∈ events, event.ptr ∈ s.sockets ∨ event.ptr = .listener) :
    (events.foldl Server.dispatch (b, s)).2.Holds J := by
  induction events generalizing s b with
  | nil => exact h
  | cons event events ih =>
    have hd := hinv.dispatched (hp event (by simp)) b
    have hh := hJ.dispatch h hinv (hp event (by simp)) b
    rw [List.foldl_cons]
    generalize Server.dispatch (b, s) event = r at hd hh
    obtain ⟨b', t⟩ := r
    exact ih hh hd.inv b' fun event' he ↦ hd.sockets ▸ hp event' (by simp [he])

theorem acceptOne (hJ : PerClient J) (h : s.Holds J) (hinv : Inv s) (a : Accepted) :
    (s.acceptOne a).Holds J := by
  obtain ⟨p, hp, he, hcases⟩ := acceptOne_cases hinv.sound a
  generalize s.acceptOne a = t at he hcases
  have hold : ∀ q ∈ s.sockets, t.memory q = s.memory q := fun q hq ↦
    he.memory q fun hqp ↦ hp (hqp ▸ Server.mem_holders hq)
  rcases hcases with ⟨hq, -⟩ | ⟨hj, -⟩
  · exact hJ.quiet h hq hold
  · obtain ⟨new, hlog, hnew⟩ := hj.log
    obtain ⟨sendBuffer, rcvBuffer, fd, hsocket⟩ := hj.socket
    intro q hq
    rw [hlog]
    rcases eq_or_ne q p with rfl | hqp
    · have hmark : marked q (s.log ++ new) = false := by
        rw [marked_append q _ fun e he ↦ (hnew e he).passive, ← Bool.not_eq_true,
          ← hinv.lists.marked_iff]
        exact fun hmem ↦ hp (hinv.lists.disconnected_known q hmem).holder
      rw [hsocket]
      exact hJ.joined q _ sendBuffer rcvBuffer fd hmark
    · rw [hj.sockets, mem_addUnique] at hq
      rw [hold q (hq.resolve_right hqp), List.append_assoc]
      apply hJ.append (h q (hq.resolve_right hqp))
      intro e he
      rcases List.mem_append.1 he with he | he
      · exact (hnew e he).spares q
      · rw [List.mem_singleton.1 he]
        exact hqp.symm

theorem acceptLoop (hJ : PerClient J) (h : s.Holds J) (hinv : Inv s) (accepts : List Accepted)
    (ended : Errno) : (s.acceptLoop accepts ended).Holds J := by
  have hall : (accepts.foldl Server.acceptOne s).Holds J := by
    induction accepts generalizing s with
    | nil => exact h
    | cons a accepts ih => exact ih (hJ.acceptOne h hinv a) (hinv.acceptOne a).inv
  unfold Server.acceptLoop
  rw [ite_self]
  exact hJ.emit hall fun _ _ ↦ trivial

theorem poll (hJ : PerClient J) (h : s.Holds J) (hinv : Inv s) (env : PollEnv) :
    (s.poll env).Holds J := by
  by_cases hefd : s.efd < 0
  · rwa [Server.poll, if_pos hefd]
  have hwait : Inv ((s.deleteDisconnected env).emit (.system .epollWait)) :=
    (hinv.deleteDisconnected env).inv.emit trivial
  have hh : ((s.deleteDisconnected env).emit (.system .epollWait)).Holds J :=
    hJ.emit (hJ.deleteDisconnected h hinv env) fun _ _ ↦ trivial
  have hknown := polledEvents_known env hwait
  have hd : Inv (s.dispatched env).2 := (hwait.dispatchAll false _ hknown).inv
  have hdh : (s.dispatched env).2.Holds J := hJ.dispatchAll hh hwait false _ hknown
  rw [s.poll_eq env hefd]
  split
  · exact hJ.acceptLoop hdh hd env.accepts env.ended
  · exact hdh

theorem serve_listener (hJ : PerClient J) (h : s.Holds J) (hinv : Inv s) (env : RoundEnv) :
    (s.serve env .listener).2.Holds J := by
  have hs := serve_served env hinv.sound (some_mem_holders.2 (.inl rfl) :
    some .listener ∈ holders s.members)
  intro q hq
  rw [hs.sockets] at hq
  have hne : q ≠ .listener := fun heq ↦ hinv.listener_notMem (heq ▸ hq)
  have hmem : (s.serve env .listener).2.memory q = s.memory q := callSocket_listener hinv env hne
  rw [hmem]
  exact hJ.served_elsewhere hs hne (h q hq)

end PerClient

/-- Each service of the sockets in turn, from the state that the services
before it have left. -/
def EachService (P : RoundEnv → Ptr → Server → Prop) (env : RoundEnv) : List Ptr → Server → Prop
  | [], _ => True
  | p :: l, s => P env p s ∧ EachService P env l (s.serve env p).2

theorem EachService.of_forall {P : RoundEnv → Ptr → Server → Prop} {env : RoundEnv}
    (h : ∀ p s, P env p s) (l : List Ptr) (s : Server) : EachService P env l s := by
  induction l generalizing s with
  | nil => trivial
  | cons p l ih => exact ⟨h p s, ih _⟩

def EveryService (P : RoundEnv → Ptr → Server → Prop) : List Op → Server → Prop
  | [], _ => True
  | .sendAndRecv env :: ops, s =>
    (0 ≤ s.efd → EachService P env s.receiveSockets s) ∧ EveryService P ops (s.sendAndRecv env)
  | op :: ops, s => EveryService P ops (s.call op)

namespace PerClient

variable {J : Ptr → Socket → List Event → Prop} {P : RoundEnv → Ptr → Server → Prop}
  {env : RoundEnv} {s : Server}

theorem receiveLoop
    (hserve : ∀ t p, Inv t → p ∈ t.sockets → t.Holds J → P env p t → (t.serve env p).2.Holds J)
    (l : List Ptr) (h : s.Holds J) (hinv : Inv s) (hl : ∀ p ∈ l, p ∈ s.sockets)
    (hfit : EachService P env l s) (b : Bool) :
    (l.foldl (Server.receiveLoop env) (b, s)).2.Holds J := by
  induction l generalizing s b with
  | nil => exact h
  | cons p l ih =>
    have hp := hl p (by simp)
    have hr := hinv.serveRound (.inl hp) env
    rw [List.foldl_cons, hinv.receiveLoop_eq (.inl hp)]
    exact ih (hserve s p hinv hp h hfit.1) hr.inv
      (fun q hq ↦ hr.sockets ▸ hl q (by simp [hq])) hfit.2 _

theorem sendLoop (hJ : PerClient J) (l : List Ptr) (h : s.Holds J) (hinv : Inv s)
    (hl : ∀ p ∈ l, s.known p) : (l.foldl (Server.sendLoop env) s).Holds J := by
  induction l generalizing s with
  | nil => exact h
  | cons p l ih =>
    have hp := hl p (by simp)
    have hrest : ∀ q ∈ l, s.known q := fun q hq ↦ hl q (by simp [hq])
    rw [List.foldl_cons, hinv.sendLoop_eq hp]
    by_cases hmem : p ∈ s.sockets
    · rw [if_pos hmem]
      exact ih h hinv hrest
    · rw [if_neg hmem]
      have hr := hinv.serveRound hp env
      obtain ⟨rfl, -⟩ := hp.resolve_left hmem
      exact ih (hJ.serve_listener h hinv env) hr.inv fun q hq ↦ hr.known (hrest q hq)

theorem sendAndRecv (hJ : PerClient J)
    (hserve : ∀ t p, Inv t → p ∈ t.sockets → t.Holds J → P env p t → (t.serve env p).2.Holds J)
    (hfinished : ∀ t, s.receiveSockets.foldl (Server.receiveLoop env) (false, s) = (true, t) →
      Inv (t.emit .recvFinished) → (t.emit .recvFinished).Holds J →
      ((t.emit .recvFinished).runOps env.finished).Holds J)
    (h : s.Holds J) (hinv : Inv s) (hfit : EachService P env s.receiveSockets s) :
    (s.sendAndRecv env).Holds J := by
  unfold Server.sendAndRecv
  split
  · exact h
  have hclients : ∀ p ∈ s.receiveSockets, p ∈ s.sockets := fun p hp ↦ hinv.lists.receive_eq ▸ hp
  have hloop := receiveLoop hserve s.receiveSockets h hinv hclients hfit false
  obtain ⟨received, -, hround⟩ := hinv.receiveRound env s.receiveSockets
    (fun p hp ↦ .inl (hclients p hp)) false
  generalize s.receiveSockets.foldl (Server.receiveLoop env) (false, s) = r
    at hloop hround hfinished
  obtain ⟨b, t⟩ := r
  dsimp only at hloop hround hfinished ⊢
  have hfin : (if b then (t.emit .recvFinished).runOps env.finished else t).Holds J ∧
      Inv (if b then (t.emit .recvFinished).runOps env.finished else t) := by
    cases b with
    | false => exact ⟨hloop, hround.inv⟩
    | true =>
      have hemit : Inv (t.emit .recvFinished) := hround.inv.emit trivial
      exact ⟨hfinished t rfl hemit (hJ.emit hloop fun _ _ ↦ trivial), hemit.runOps env.finished⟩
  exact hJ.sendLoop _ hfin.1 hfin.2 hfin.2.lists.send_known

end PerClient

end LowLatency.TCPServer
