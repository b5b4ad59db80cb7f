import LowLatency.TCPServer.Closing
import LowLatency.TCPSocket.Congruence

namespace LowLatency.TCPServer

open Library.Handles Library.Runs SocketUtils TCPSocket Function

section Alone

def alone : Place Socket where
  get := id
  set x _ := x
  get_set _ _ := rfl

def SocketOp.act : SocketOp → Socket → Socket
  | .consume rcvBuffer index, x => { x with rcvBuffer := rcvBuffer, nextRcvValidIndex := index }
  | .send data, x => (x.send data).2
  | .destroy, x => x.destroy
  | .connect created, x => x.connect (created.elim (-1) Int.ofNat)

/-- What the system and the callback do for a socket in one `sendAndRecv()`. -/
structure Turn where
  io : Io
  acts : List SocketOp

def Turn.step (turn : Turn) (x : Socket) : Record × Socket :=
  sendAndRecv alone turn.io (fun _ x ↦ turn.acts.foldl (fun x op ↦ op.act x) x) x

end Alone

def actsOn (a : ℕ) (ops : List (ℕ × SocketOp)) : List SocketOp :=
  ops.filterMap fun op ↦ if op.1 = a then some op.2 else none

def turnOf (a : ℕ) (env : RoundEnv) : Turn :=
  ⟨env.io (.client a), actsOn a (env.callback (.client a))⟩

def turns (a : ℕ) (ops : List Op) : List Turn :=
  ops.filterMap fun
    | .sendAndRecv env => some (turnOf a env)
    | _ => none

/-- The client at `a` is left alone by the callbacks of the others, and its own
does not give it a new descriptor. -/
structure Private (a : ℕ) (env : RoundEnv) : Prop where
  plain : ∀ op ∈ env.callback (.client a), op.1 = a → ∀ created, op.2 ≠ .connect created
  others : ∀ b, b ≠ a → ∀ op ∈ env.callback (.client b), op.1 ≠ a
  finished : ∀ op ∈ env.finished, op.1 ≠ a

def Op.Private (a : ℕ) : Op → Prop
  | .poll _ => True
  | .sendAndRecv env => TCPServer.Private a env
  | _ => False

/-- No `poll()` finds the client on the list of disconnected sockets. -/
def Stays (p : Ptr) : List Op → Server → Prop
  | [], _ => True
  | .poll env :: ops, s => p ∉ s.disconnectedSockets ∧ Stays p ops (s.poll env)
  | op :: ops, s => Stays p ops (s.call op)

def servedRecords (p : Ptr) (log : List Event) : List Record :=
  log.filterMap fun
    | .served q record _ => if q = p then some record else none
    | _ => none

section Callback

variable {s : Server} {a : ℕ} {q : Ptr}

theorem connectSocket_memory_ne {p : Ptr} (hq : q ≠ p) (created : Option ℕ) :
    (s.connectSocket p created).memory q = s.memory q := by
  have hd : (s.destroySocket p).memory q = s.memory q := by
    rw [Server.destroySocket_memory, update_of_ne hq]
  unfold Server.connectSocket
  cases created with
  | none => exact (update_of_ne hq _ _).trans hd
  | some hint => exact (update_of_ne hq _ _).trans hd

theorem runOp_memory_ne (op : SocketOp) (hq : q ≠ .client a) :
    (s.runOp (a, op)).memory q = s.memory q := by
  cases op with
  | connect created =>
    by_cases ha : Ptr.client a ∈ s.sockets
    · simp only [Server.runOp, if_pos ha]
      exact connectSocket_memory_ne hq created
    · rw [Server.runOp, if_neg ha]
  | consume | send | destroy => exact runOp_elsewhere (by simp) hq

theorem runOps_memory_ne {ops : List (ℕ × SocketOp)} (hops : ∀ op ∈ ops, .client op.1 ≠ q) :
    (s.runOps ops).memory q = s.memory q := by
  induction ops generalizing s with
  | nil => rfl
  | cons op ops ih =>
    apply (ih fun op hop ↦ hops op (List.mem_cons_of_mem _ hop)).trans
    exact runOp_memory_ne op.2 (hops op List.mem_cons_self).symm

theorem runOp_act {op : SocketOp} (ha : .client a ∈ s.sockets)
    (hop : ∀ created, op ≠ .connect created) :
    (s.runOp (a, op)).memory (.client a) = op.act (s.memory (.client a)) := by
  unfold Server.runOp
  rw [if_pos ha]
  cases op with
  | consume rcvBuffer index => exact update_self ..
  | send data => exact update_self ..
  | destroy =>
    dsimp only
    rw [Server.destroySocket_memory, update_self]
    rfl
  | connect created => exact absurd rfl (hop created)

theorem actsOn_cons_self (a : ℕ) (op : SocketOp) (ops : List (ℕ × SocketOp)) :
    actsOn a ((a, op) :: ops) = op :: actsOn a ops := by
  simp [actsOn]

theorem actsOn_cons_ne {b : ℕ} (op : SocketOp) (ops : List (ℕ × SocketOp)) (hne : b ≠ a) :
    actsOn a ((b, op) :: ops) = actsOn a ops := by
  simp [actsOn, hne]

theorem runOps_acts {ops : List (ℕ × SocketOp)} (ha : .client a ∈ s.sockets)
    (hplain : ∀ op ∈ ops, op.1 = a → ∀ created, op.2 ≠ .connect created) :
    (s.runOps ops).memory (.client a) =
      (actsOn a ops).foldl (fun x op ↦ op.act x) (s.memory (.client a)) := by
  induction ops generalizing s with
  | nil => rfl
  | cons op ops ih =>
    obtain ⟨b, op⟩ := op
    have hrest := ih (s := s.runOp (b, op)) ((Quiet.runOp s (b, op)).sockets ▸ ha)
      fun op hop ↦ hplain op (List.mem_cons_of_mem _ hop)
    apply hrest.trans
    rcases eq_or_ne b a with rfl | hne
    · rw [runOp_act ha (hplain _ List.mem_cons_self rfl), actsOn_cons_self]
      rfl
    · rw [runOp_memory_ne op (by simpa using hne.symm), actsOn_cons_ne op ops hne]

end Callback

section Moves

variable {a : ℕ} {s t u : Server}

/-- From `s` to `t` the client at `a` has gone through these turns and nothing
else has happened to it. -/
structure Moved (a : ℕ) (turns : List Turn) (s t : Server) : Prop where
  efd : t.efd = s.efd
  member : .client a ∈ s.sockets → .client a ∈ t.sockets
  memory : t.memory (.client a) = (feed Turn.step turns (s.memory (.client a))).2
  log : ∃ new, t.log = s.log ++ new ∧
    servedRecords (.client a) new = (feed Turn.step turns (s.memory (.client a))).1

theorem servedRecords_append (p : Ptr) (log new : List Event) :
    servedRecords p (log ++ new) = servedRecords p log ++ servedRecords p new :=
  List.filterMap_append

theorem servedRecords_served (p : Ptr) (record : Record) (d : Bool) :
    servedRecords p [.served p record d] = [record] := by
  simp [servedRecords]

theorem servedRecords_spared {p : Ptr} {new : List Event} (h : ∀ e ∈ new, e.spares p) :
    servedRecords p new = [] := by
  apply List.filterMap_eq_nil_iff.2
  intro e he
  cases e with
  | served q record d => exact if_neg (h _ he)
  | _ => rfl

theorem Moved.trans {ts us : List Turn} (h : Moved a ts s t) (h' : Moved a us t u) :
    Moved a (ts ++ us) s u := by
  obtain ⟨new, hlog, hrecords⟩ := h.log
  obtain ⟨new', hlog', hrecords'⟩ := h'.log
  refine ⟨h'.efd.trans h.efd, fun hs ↦ h'.member (h.member hs), ?_, new ++ new', ?_, ?_⟩
  · rw [h'.memory, h.memory, feed_append]
  · rw [hlog', hlog, List.append_assoc]
  · rw [servedRecords_append, hrecords, hrecords', h.memory, feed_append]

theorem Moved.refl (a : ℕ) (s : Server) : Moved a [] s s :=
  ⟨rfl, id, rfl, [], (List.append_nil _).symm, rfl⟩

theorem Moved.of_spared (hefd : t.efd = s.efd)
    (hmember : .client a ∈ s.sockets → .client a ∈ t.sockets)
    (hmemory : t.memory (.client a) = s.memory (.client a))
    (hlog : ∃ new, t.log = s.log ++ new ∧ ∀ e ∈ new, e.spares (.client a)) : Moved a [] s t := by
  obtain ⟨new, hnew, hspares⟩ := hlog
  exact ⟨hefd, hmember, hmemory, new, hnew, servedRecords_spared hspares⟩

theorem Moved.emit (s : Server) {e : Event} (he : e.spares (.client a)) : Moved a [] s (s.emit e) :=
  .of_spared rfl id rfl ⟨[e], rfl, fun _ h ↦ List.mem_singleton.1 h ▸ he⟩

theorem Moved.quiet (hq : Quiet s t) (hmemory : t.memory (.client a) = s.memory (.client a)) :
    Moved a [] s t := by
  obtain ⟨new, hlog, hnew⟩ := hq.log
  exact .of_spared hq.efd (fun ha ↦ hq.sockets ▸ ha) hmemory
    ⟨new, hlog, fun e he ↦ (hnew e he).spares _⟩

end Moves

section Service

variable {a : ℕ} {s t : Server} {env : RoundEnv} {p : Ptr}

theorem callSocket_alone (hinv : Inv s) (henv : Private a env) (ha : .client a ∈ s.sockets) :
    (s.callSocket env (.client a)).1 = ((turnOf a env).step (s.memory (.client a))).1 ∧
      (s.callSocket env (.client a)).2.memory (.client a) =
        ((turnOf a env).step (s.memory (.client a))).2 := by
  rw [callSocket_eq hinv (Server.mem_holders ha)]
  obtain ⟨hrecord, hmemory, -⟩ := sendAndRecv_congr eq_respected (Server.place (.client a)) alone
    (env.io (.client a)) (fun _ ↦ Server.recvCallback env (.client a))
    (fun _ x ↦ (turnOf a env).acts.foldl (fun x op ↦ op.act x) x)
    (fun s x ↦ s.memory (.client a) = x ∧ .client a ∈ s.sockets)
    (fun s x h ↦ h.1)
    (fun s x y z h hyz ↦ ⟨(Server.place_set_memory s _ y).trans hyz, h.2⟩)
    (fun _ s x h ↦ by
      refine ⟨?_, ?_⟩
      · rw [← h.1]
        exact runOps_acts (s := s.emit (.recvCallback (.client a))) h.2 henv.plain
      · have hq := Quiet.runOps (env.callback (.client a)) (s.emit (.recvCallback (.client a)))
        have hmem := h.2
        rwa [← show (s.recvCallback env (.client a)).sockets = s.sockets from hq.sockets] at hmem)
    ⟨rfl, ha⟩
  exact ⟨hrecord, hmemory⟩

theorem serve_own (hinv : Inv s) (henv : Private a env) (ha : .client a ∈ s.sockets) :
    Moved a [turnOf a env] s (s.serve env (.client a)).2 := by
  obtain ⟨hrecord, hmemory⟩ := callSocket_alone hinv henv ha
  have hs := serve_served env hinv.sound (Server.mem_holders ha)
  obtain ⟨new, hlog, hnew⟩ := hs.spares
  rw [List.append_assoc] at hlog
  refine ⟨hs.efd, fun _ ↦ hs.sockets ▸ ha, hmemory, _, hlog, ?_⟩
  rw [servedRecords_append, servedRecords_spared (hnew _), servedRecords_served, hrecord]
  rfl

theorem serve_other (hinv : Inv s) (hp : some p ∈ holders s.members) (hne : .client a ≠ p)
    (hmemory : (s.callSocket env p).2.memory (.client a) = s.memory (.client a)) :
    Moved a [] s (s.serve env p).2 := by
  have hs := serve_served env hinv.sound hp
  obtain ⟨new, hlog, hnew⟩ := hs.spares
  rw [List.append_assoc] at hlog
  refine Moved.of_spared hs.efd (fun ha ↦ hs.sockets ▸ ha) hmemory ⟨_, hlog, ?_⟩
  intro e he
  rcases List.mem_append.1 he with he | he
  · exact hnew _ e he
  · rw [List.mem_singleton.1 he]
    exact hne.symm

theorem serve_client (hinv : Inv s) (henv : Private a env) (hp : p ∈ s.sockets)
    (hne : .client a ≠ p) : Moved a [] s (s.serve env p).2 := by
  obtain ⟨b, -, rfl⟩ := (hinv.sound.owned_iff p).1 hp
  apply serve_other hinv (Server.mem_holders hp) hne
  apply callSocket_elsewhere hinv (Server.mem_holders hp) hne
  intro s
  apply runOps_memory_ne (s := s.emit (.recvCallback (.client b)))
  intro op hop heq
  exact henv.others b (fun hba ↦ hne (by rw [hba])) op hop (Ptr.client.inj heq)

theorem receive_others (henv : Private a env) (l : List Ptr) (hinv : Inv s)
    (hl : ∀ p ∈ l, p ∈ s.sockets) (ha : .client a ∉ l) (b : Bool) :
    Moved a [] s (l.foldl (Server.receiveLoop env) (b, s)).2 := by
  induction l generalizing s b with
  | nil => exact .refl a s
  | cons p l ih =>
    have hp := hl p (by simp)
    have hr := hinv.serveRound (.inl hp) env
    rw [List.mem_cons, not_or] at ha
    rw [List.foldl_cons, hinv.receiveLoop_eq (.inl hp)]
    refine (serve_client hinv henv hp ha.1).trans (ih hr.inv ?_ ha.2 _)
    intro q hq
    rw [hr.sockets]
    exact hl q (by simp [hq])

theorem receive_all (henv : Private a env) (l : List Ptr) (hinv : Inv s)
    (hl : ∀ p ∈ l, p ∈ s.sockets) (hnodup : l.Nodup) (ha : .client a ∈ l) (b : Bool) :
    Moved a [turnOf a env] s (l.foldl (Server.receiveLoop env) (b, s)).2 := by
  induction l generalizing s b with
  | nil => cases ha
  | cons p l ih =>
    have hp := hl p (by simp)
    have hr := hinv.serveRound (.inl hp) env
    obtain ⟨hnot, hnodup⟩ := List.nodup_cons.1 hnodup
    have hrest : ∀ q ∈ l, q ∈ (s.serve env p).2.sockets := fun q hq ↦
      hr.sockets ▸ hl q (by simp [hq])
    rw [List.foldl_cons, hinv.receiveLoop_eq (.inl hp)]
    rcases eq_or_ne (Ptr.client a) p with rfl | hne
    · exact (serve_own hinv henv hp).trans (receive_others henv l hr.inv hrest hnot _)
    · exact (serve_client hinv henv hp hne).trans
        (ih hr.inv hrest hnodup ((List.mem_cons.1 ha).resolve_left hne) _)

theorem send_listener (l : List Ptr) (hinv : Inv s) (hl : ∀ p ∈ l, s.known p) :
    Moved a [] s (l.foldl (Server.sendLoop env) s) := by
  induction l generalizing s with
  | nil => exact .refl a s
  | cons p l ih =>
    have hp := hl p (by simp)
    have hrest : ∀ q ∈ l, s.known q := fun q hq ↦ hl q (by simp [hq])
    rw [List.foldl_cons, hinv.sendLoop_eq hp]
    by_cases hmem : p ∈ s.sockets
    · rw [if_pos hmem]
      exact ih hinv hrest
    · rw [if_neg hmem]
      have hr := hinv.serveRound hp env
      obtain ⟨rfl, -⟩ := hp.resolve_left hmem
      have hm : Moved a [] s (s.serve env .listener).2 :=
        serve_other hinv (some_mem_holders.2 (.inl rfl)) (by nofun)
          (callSocket_listener hinv env (by nofun))
      exact hm.trans (ih hr.inv fun q hq ↦ hr.known (hrest q hq))

theorem sendAndRecv_moved (hinv : Inv s) (henv : Private a env) (hefd : 0 ≤ s.efd)
    (ha : .client a ∈ s.sockets) : Moved a [turnOf a env] s (s.sendAndRecv env) := by
  have hclients : ∀ p ∈ s.receiveSockets, p ∈ s.sockets := fun p hp ↦ hinv.lists.receive_eq ▸ hp
  have hnodup : s.receiveSockets.Nodup := hinv.lists.receive_eq ▸ hinv.lists.sockets_nodup
  have hloop := receive_all henv s.receiveSockets hinv hclients hnodup
    (hinv.lists.receive_eq ▸ ha) false
  obtain ⟨received, -, hround⟩ := hinv.receiveRound env s.receiveSockets
    (fun p hp ↦ .inl (hclients p hp)) false
  unfold Server.sendAndRecv
  rw [if_neg (not_lt.2 hefd)]
  generalize s.receiveSockets.foldl (Server.receiveLoop env) (false, s) = r at hround hloop
  obtain ⟨b, t⟩ := r
  dsimp only at hround hloop ⊢
  cases b with
  | false => exact hloop.trans (send_listener _ hround.inv hround.inv.lists.send_known)
  | true =>
    have hinv' := (hround.inv.emit (e := .recvFinished) trivial).runOps env.finished
    have hq := Quiet.runOps env.finished (t.emit .recvFinished)
    have hmemory : ((t.emit .recvFinished).runOps env.finished).memory (.client a) =
        t.memory (.client a) := by
      apply runOps_memory_ne (s := t.emit .recvFinished)
      intro op hop heq
      exact henv.finished op hop (Ptr.client.inj heq)
    have hfinished : Moved a [] t ((t.emit .recvFinished).runOps env.finished) :=
      (Moved.emit (e := .recvFinished) t trivial).trans (.quiet hq hmemory)
    exact (hloop.trans hfinished).trans (send_listener _ hinv' hinv'.lists.send_known)

end Service

section Poll

variable {a : ℕ} {s t : Server}

theorem dispatch_moved (hinv : Inv s) {event : EpollEvent}
    (hp : event.ptr ∈ s.sockets ∨ event.ptr = .listener) (b : Bool) :
    Moved a [] s (Server.dispatch (b, s) event).2 := by
  rw [← hinv.lists.receive_eq] at hp
  rcases dispatch_cases b hp with he | ⟨-, he⟩ | ⟨-, he⟩ | ⟨-, he⟩ <;> rw [he]
  · exact .refl a s
  · exact .of_spared rfl id rfl ⟨[.reported event.ptr], rfl, by simp [Event.spares]⟩
  · exact .of_spared rfl id rfl ⟨[], (List.append_nil _).symm, by nofun⟩
  · exact .of_spared rfl id rfl ⟨[.listenerWritable], rfl, by simp [Event.spares]⟩

theorem dispatchAll_moved (hinv : Inv s) (b : Bool) (events : List EpollEvent)
    (hp : ∀ event ∈ events, event.ptr ∈ s.sockets ∨ event.ptr = .listener) :
    Moved a [] s (events.foldl Server.dispatch (b, s)).2 := by
  induction events generalizing s b with
  | nil => exact .refl a s
  | cons event events ih =>
    have hd := hinv.dispatched (hp event (by simp)) b
    have hm := dispatch_moved (a := a) hinv (hp event (by simp)) b
    rw [List.foldl_cons]
    generalize Server.dispatch (b, s) event = r at hd hm
    obtain ⟨b', t⟩ := r
    exact hm.trans (ih hd.inv b' fun event' he ↦ hd.sockets ▸ hp event' (by simp [he]))

theorem acceptOne_moved (hinv : Inv s) (ha : .client a ∈ s.sockets) (accepted : Accepted) :
    Moved a [] s (s.acceptOne accepted) := by
  obtain ⟨p, hp, helse, hcases⟩ := acceptOne_cases hinv.sound accepted
  have hne : Ptr.client a ≠ p := fun heq ↦ hp (heq ▸ Server.mem_holders ha)
  have hmemory := helse.memory _ hne
  rcases hcases with ⟨hq, -⟩ | ⟨hj, -⟩
  · exact .quiet hq hmemory
  · obtain ⟨new, hlog, hnew⟩ := hj.log
    rw [List.append_assoc] at hlog
    refine .of_spared hj.efd (fun ha ↦ ?_) hmemory ⟨_, hlog, ?_⟩
    · rw [hj.sockets, mem_addUnique]
      exact .inl ha
    · intro e he
      rcases List.mem_append.1 he with he | he
      · exact (hnew e he).spares _
      · rw [List.mem_singleton.1 he]
        exact hne.symm

theorem acceptAll_moved (hinv : Inv s) (ha : .client a ∈ s.sockets) (accepts : List Accepted) :
    Moved a [] s (accepts.foldl Server.acceptOne s) := by
  induction accepts generalizing s with
  | nil => exact .refl a s
  | cons accepted accepts ih =>
    have hm := acceptOne_moved hinv ha accepted
    exact hm.trans (ih (hinv.acceptOne accepted).inv (hm.member ha))

theorem acceptLoop_moved (hinv : Inv s) (ha : .client a ∈ s.sockets) (accepts : List Accepted)
    (ended : Errno) : Moved a [] s (s.acceptLoop accepts ended) := by
  unfold Server.acceptLoop
  rw [ite_self]
  exact (acceptAll_moved hinv ha accepts).trans (.emit (e := .system .accept) _ trivial)

theorem poll_moved (hinv : Inv s) (ha : .client a ∈ s.sockets)
    (hstays : .client a ∉ s.disconnectedSockets) (env : PollEnv) : Moved a [] s (s.poll env) := by
  by_cases hefd : s.efd < 0
  · rw [Server.poll, if_pos hefd]
    exact .refl a s
  have hpurged := hinv.deleteDisconnected env
  have hnot : Ptr.client a ∉ s.disconnectedSockets.filter (· ≠ .listener) := fun h ↦
    hstays (List.mem_filter.1 h).1
  have hdeleted : Moved a [] s (s.deleteDisconnected env) := by
    obtain ⟨new, hlog, -, hnew⟩ := hpurged.log
    refine .of_spared hpurged.efd (fun ha ↦ ?_) (hpurged.memory _ hnot)
      ⟨.polled :: new, hlog.trans (List.append_assoc ..), ?_⟩
    · rw [hpurged.sockets]
      exact List.mem_filter.2 ⟨ha, decide_eq_true hnot⟩
    · intro e he
      rcases List.mem_cons.1 he with rfl | he
      · trivial
      · exact (hnew e he).spares _
  have hwait : Inv ((s.deleteDisconnected env).emit (.system .epollWait)) :=
    hpurged.inv.emit trivial
  have hwaited := hdeleted.trans (.emit (e := .system .epollWait) _ trivial)
  have hknown := polledEvents_known env hwait
  have hdispatched : Moved a [] s (s.dispatched env).2 :=
    hwaited.trans (dispatchAll_moved hwait false _ hknown)
  rw [s.poll_eq env hefd]
  split
  · have hd : Inv (s.dispatched env).2 := (hwait.dispatchAll false _ hknown).inv
    exact hdispatched.trans (acceptLoop_moved hd (hdispatched.member ha) _ _)
  · exact hdispatched

end Poll

section Run

variable {a : ℕ} {s : Server}

theorem calls_moved (hinv : Inv s) (ha : .client a ∈ s.sockets) (hefd : 0 ≤ s.efd)
    {ops : List Op} (hops : ∀ op ∈ ops, op.Private a) (hstays : Stays (.client a) ops s) :
    Moved a (turns a ops) s (ops.foldl Server.call s) := by
  induction ops generalizing s with
  | nil => exact .refl a s
  | cons op ops ih =>
    have hrest : ∀ op ∈ ops, op.Private a := fun op hop ↦ hops op (List.mem_cons_of_mem _ hop)
    cases op with
    | poll env =>
      have hm := poll_moved hinv ha hstays.1 env
      exact hm.trans (ih (hinv.poll env) (hm.member ha) (hm.efd ▸ hefd) hrest hstays.2)
    | sendAndRecv env =>
      have hm := sendAndRecv_moved hinv (hops _ List.mem_cons_self) hefd ha
      exact hm.trans (ih (hinv.sendAndRecv env) (hm.member ha) (hm.efd ▸ hefd) hrest hstays)
    | listen env | destroy => exact (hops _ List.mem_cons_self).elim

/-- A client of a server behaves like a socket of its own: as long as nobody
else's callback touches it, its own does not reconnect it and no `poll()` deletes
it, its state and the records of its calls depend on nothing but its own
descriptor's system calls and its own callback. -/
theorem run_isolates_clients (memory : Ptr → Socket) (history later : List Op) {a : ℕ}
    (ha : .client a ∈ (run memory history).sockets) (hefd : 0 ≤ (run memory history).efd)
    (hprivate : ∀ op ∈ later, op.Private a)
    (hstays : Stays (.client a) later (run memory history)) :
    (run memory (history ++ later)).memory (.client a) =
      (feed Turn.step (turns a later) ((run memory history).memory (.client a))).2 ∧
    ∃ new, (run memory (history ++ later)).log = (run memory history).log ++ new ∧
      servedRecords (.client a) new =
        (feed Turn.step (turns a later) ((run memory history).memory (.client a))).1 := by
  have hm := calls_moved (run_inv memory history) ha hefd hprivate hstays
  have hsplit : run memory (history ++ later) = later.foldl Server.call (run memory history) :=
    List.foldl_append
  rw [hsplit]
  exact ⟨hm.memory, hm.log⟩

def visitors : List Op := [listening, accepting [connection 5 1, connection 6 0]]

def visit : List Op := [
  .sendAndRecv ⟨
    fun p ↦ ⟨if p = .client 0 then .received [7] [] else .received [] [],
      fun _ ↦ .error .eagain⟩,
    fun p ↦ if p = .client 0 then [(0, .send (.bytes [8]))] else [],
    []⟩,
  accepting [connection 7 2]]

theorem run_isolates_clients_two :
    (run blank (visitors ++ visit)).memory (.client 0) =
      (feed Turn.step (turns 0 visit) ((run blank visitors).memory (.client 0))).2 := by
  refine (run_isolates_clients blank visitors visit (by decide) (by decide) ?_ ?_).1
  · intro op hop
    simp only [visit, List.mem_cons, List.not_mem_nil, or_false] at hop
    rcases hop with rfl | rfl
    · exact ⟨by simp, fun b hb ↦ by simp [hb], by simp⟩
    · trivial
  · exact ⟨by decide, trivial⟩

end Run

end LowLatency.TCPServer
