import LowLatency.TCPServer.Isolation
import LowLatency.TCPServer.Listener
import LowLatency.TCPSocket.Session

namespace LowLatency.TCPServer

open Library.Handles Library.Runs Library.ByteBuffer Library.Words SocketUtils TCPSocket Function

inductive SessionOp
  | keep (incoming : List Byte)
  | send (data : Data)
  | close
  | reconnect (ok : Bool)

/-- What the kernel and the application do in one round. -/
structure Visit where
  io : ℕ → Io
  callback : ℕ → List (ℕ × SessionOp)
  finished : List (ℕ × SessionOp)

inductive Note
  | joined (client : ℕ)
  | served (client : ℕ) (record : Record)
  | finished

/-- What a `TCPServer` stands for: its clients in the order in which they came,
those among them whose connection epoll watches, those that the next `poll()`
will drop, and a session for each. -/
structure Table where
  listening : Bool
  clients : List ℕ
  watched : List ℕ
  doomed : List ℕ
  session : ℕ → Session

inductive Command
  | listen (ok : Bool)
  | poll (failed joined : List ℕ)
  | sendAndRecv (visit : Visit)
  | destroy

namespace Table

def empty (listening : Bool) : Table := ⟨listening, [], [], [], fun _ ↦ .closed⟩

def put (a : ℕ) (x : Session) (T : Table) : Table := { T with session := update T.session a x }

def unwatch (a : ℕ) (T : Table) : Table := { T with watched := T.watched.filter (· ≠ a) }

def doom (T : Table) (a : ℕ) : Table :=
  { T with doomed := if a ∈ T.doomed then T.doomed else T.doomed ++ [a] }

def act (T : Table) (action : ℕ × SessionOp) : Table :=
  let a := action.1
  if a ∈ T.clients then
    match action.2 with
    | .keep incoming => T.put a { T.session a with incoming := incoming }
    | .send data => T.put a ((T.session a).send data).2
    | .close => (T.put a .closed).unwatch a
    | .reconnect ok => (T.put a { Session.closed with isOpen := ok }).unwatch a
  else T

def acts (actions : List (ℕ × SessionOp)) (T : Table) : Table := actions.foldl act T

def exchange (visit : Visit) (a : ℕ) (T : Table) : Record × Table :=
  Session.exchange (·.session a) (put a) (visit.io a) (fun _ ↦ acts (visit.callback a)) T

def serve (visit : Visit) (a : ℕ) (T : Table) : (ℕ × Record) × Table :=
  let (record, T) := T.exchange visit a
  ((a, record), if (T.session a).recvDisconnected || (T.session a).sendDisconnected
    then T.doom a else T)

/-- Every client is served once. If bytes have come for one of them, the
application gets its turn at the end. -/
def round (visit : Visit) (T : Table) : List Note × Table :=
  if T.listening then
    let (records, T) := feed (serve visit) T.clients T
    let notes := records.map fun r ↦ .served r.1 r.2
    if records.any fun r ↦ r.2.returned then (notes ++ [.finished], T.acts visit.finished)
    else (notes, T)
  else ([], T)

def purge (T : Table) : Table :=
  { T with
    clients := T.clients.filter (· ∉ T.doomed)
    watched := T.watched.filter (· ∉ T.doomed)
    doomed := [] }

def join (T : Table) (a : ℕ) : Table :=
  { T.put a .fresh with clients := T.clients ++ [a], watched := T.watched ++ [a] }

/-- The doomed clients go, then some of the others fail, then new ones come. -/
def poll (failed joined : List ℕ) (T : Table) : List Note × Table :=
  if T.listening then (joined.map .joined, joined.foldl join (failed.foldl doom T.purge))
  else ([], T)

def step (T : Table) : Command → List Note × Table
  | .listen ok => ([], empty ok)
  | .poll failed joined => T.poll failed joined
  | .sendAndRecv visit => T.round visit
  | .destroy => ([], empty false)

/-- Only a watched connection can be reported, and a new client has a name of
its own. -/
def Admits (T : Table) : Command → Prop
  | .poll failed joined => (∀ a ∈ failed, a ∈ T.purge.watched) ∧ joined.Nodup ∧
      ∀ a ∈ joined, a ∉ T.purge.clients
  | _ => True

def Step (T : Table) (label : Command × List Note) (T' : Table) : Prop :=
  T.Admits label.1 ∧ T.step label.1 = (label.2, T')

end Table

def SocketOp.abstract : SocketOp → SessionOp
  | .consume rcvBuffer index => .keep (slice rcvBuffer 0 index)
  | .send data => .send data
  | .destroy => .close
  | .connect created => .reconnect created.isSome

def abstractOps (ops : List (ℕ × SocketOp)) : List (ℕ × SessionOp) :=
  ops.map fun op ↦ (op.1, op.2.abstract)

def RoundEnv.visit (env : RoundEnv) : Visit where
  io a := env.io (.client a)
  callback a := abstractOps (env.callback (.client a))
  finished := abstractOps env.finished

/-- The client that an event reports with `EPOLLERR` or `EPOLLHUP`. -/
def EpollEvent.failed (event : EpollEvent) : Option ℕ :=
  match event.ptr with
  | .client a => if event.err || event.hup then some a else none
  | _ => none

/-- The options of an accepted connection can be set, and epoll takes it. -/
def Accepted.joins (a : Accepted) : Bool :=
  (a.fcntl.getFlags = some true || a.fcntl.getFlags = some false && a.fcntl.setFlags) &&
    a.setsockopt && a.epollCtl

/-- The command that a call of the server amounts to in the state `s`, from what
the kernel answers alone. Only the names of the new clients are left open. -/
def Command.Of (s : Server) : Op → Command → Prop
  | .listen env, .listen ok =>
    ok = (env.epollCreate.isSome && env.createSocket.isSome && env.epollCtl)
  | .poll env, .poll failed joined =>
    failed = (s.polledEvents env).filterMap EpollEvent.failed ∧
      joined.length = if listenerAcceptable (s.polledEvents env)
        then env.accepts.countP Accepted.joins else 0
  | .sendAndRecv env, .sendAndRecv visit => visit = env.visit
  | .destroy, .destroy => True
  | _, _ => False

/-- The commands of a run, each in the state that the calls before it leave. -/
def Commands : Server → List Op → List (Command × List Note) → Prop
  | _, [], [] => True
  | s, op :: ops, label :: labels => Command.Of s op label.1 ∧ Commands (s.call op) ops labels
  | _, _, _ => False

def observe : Event → Option Note
  | .accepted (.client a) => some (.joined a)
  | .served (.client a) record _ => some (.served a record)
  | .recvFinished => some .finished
  | _ => none

def observed (log : List Event) : List Note := log.filterMap observe

structure Represents (T : Table) (s : Server) : Prop where
  inv : Inv s
  listening : T.listening = decide (0 ≤ s.efd)
  clients : s.sockets = T.clients.map .client
  session : ∀ a ∈ T.clients, (s.memory (.client a)).session = T.session a
  bounded : ∀ a ∈ T.clients, (s.memory (.client a)).nextSendValidIndex ≤ tcpBufferSize
  doomed : s.disconnectedSockets.filter (· ≠ .listener) = T.doomed.map .client
  watched : ∀ e ∈ s.registered, ∀ a, e.ptr = .client a → a ∈ T.watched

section Observation

theorem observed_append (log new : List Event) :
    observed (log ++ new) = observed log ++ observed new :=
  List.filterMap_append

theorem observed_nil {new : List Event} (h : ∀ e ∈ new, observe e = none) : observed new = [] :=
  List.filterMap_eq_nil_iff.2 h

theorem Event.silent.observe {e : Event} (h : e.silent) : observe e = none := by
  cases e <;> first | rfl | exact h.elim

theorem Quiet.observed {s t : Server} (h : Quiet s t) : observed t.log = observed s.log := by
  obtain ⟨new, hlog, hnew⟩ := h.log
  rw [hlog, observed_append, observed_nil fun e he ↦ (hnew e he).observe, List.append_nil]

theorem served_hidden {p : Ptr} {new : List Event}
    (h : ∀ e ∈ new, e.silent ∨ e = .recvCallback p) : ∀ e ∈ new, observe e = none := by
  intro e he
  rcases h e he with he | rfl
  · exact he.observe
  · rfl

end Observation

theorem client_injective : Injective Ptr.client := fun _ _ ↦ Ptr.client.inj

theorem connectSocket_memory (p : Ptr) (created : Option ℕ) (s : Server) :
    ∃ fd, (s.connectSocket p created).memory =
        update s.memory p ((s.destroySocket p).memory p |>.connect fd) ∧
      decide (0 ≤ fd) = created.isSome := by
  have hmemory : ∀ x, update (s.destroySocket p).memory p x = update s.memory p x := by
    intro x
    rw [s.destroySocket_memory, update_idem]
  cases created with
  | none => exact ⟨-1, hmemory _, rfl⟩
  | some hint => exact ⟨_, hmemory _, decide_eq_true (Server.newFd_nonneg _ hint)⟩

namespace Represents

variable {T : Table} {s t : Server} {a : ℕ}

theorem mem_iff (h : Represents T s) : .client a ∈ s.sockets ↔ a ∈ T.clients := by
  rw [h.clients, List.mem_map_of_injective client_injective]

theorem holder (h : Represents T s) (ha : a ∈ T.clients) :
    some (.client a) ∈ holders s.members :=
  Server.mem_holders (h.mem_iff.2 ha)

theorem congr (h : Represents T s) (hinv : Inv t) (hefd : t.efd = s.efd)
    (hsockets : t.sockets = s.sockets)
    (hmemory : ∀ a ∈ T.clients, t.memory (.client a) = s.memory (.client a))
    (hdoomed : t.disconnectedSockets.filter (· ≠ .listener) =
      s.disconnectedSockets.filter (· ≠ .listener))
    (hregistered : ∀ e ∈ t.registered, ∀ a, e.ptr = .client a → e ∈ s.registered) :
    Represents T t :=
  ⟨hinv, hefd ▸ h.listening, hsockets.trans h.clients,
    fun a ha ↦ (hmemory a ha).symm ▸ h.session a ha,
    fun a ha ↦ (hmemory a ha).symm ▸ h.bounded a ha, hdoomed.trans h.doomed,
    fun e he a hptr ↦ h.watched e (hregistered e he a hptr) a hptr⟩

theorem updated (h : Represents T s) {x : Socket} (hle : x.nextSendValidIndex ≤ tcpBufferSize) :
    ∀ b ∈ T.clients, (update s.memory (.client a) x (.client b)).session =
        (T.put a x.session).session b ∧
      (update s.memory (.client a) x (.client b)).nextSendValidIndex ≤ tcpBufferSize := by
  intro b hb
  unfold Table.put
  dsimp only
  rcases eq_or_ne b a with rfl | hne
  · rw [update_self, update_self]
    exact ⟨rfl, hle⟩
  · rw [update_of_ne (client_injective.ne hne), update_of_ne hne]
    exact ⟨h.session b hb, h.bounded b hb⟩

theorem put (h : Represents T s) {x : Socket} (hfd : x.fd = (s.memory (.client a)).fd)
    (hle : x.nextSendValidIndex ≤ tcpBufferSize) :
    Represents (T.put a x.session) ((Server.place (.client a)).set x s) :=
  ⟨⟨h.inv.sound.set hfd, h.inv.lists.quiet (.set _ x s)⟩, h.listening, h.clients,
    fun b hb ↦ (h.updated hle b hb).1, fun b hb ↦ (h.updated hle b hb).2, h.doomed, h.watched⟩

theorem replace (h : Represents T s) (hq : Quiet s t) (hs : Sound t.members t.resources)
    {x : Socket} (hmemory : t.memory = update s.memory (.client a) x)
    (hregistered : t.registered = s.registered.filter (·.ptr ≠ .client a))
    (hx : x.nextSendValidIndex = 0) : Represents ((T.put a x.session).unwatch a) t := by
  have hx := h.updated (a := a) (hx.trans_le (Nat.zero_le _))
  rw [← hmemory] at hx
  refine ⟨⟨hs, h.inv.lists.quiet hq⟩, hq.efd ▸ h.listening, hq.sockets.trans h.clients,
    fun b hb ↦ (hx b hb).1, fun b hb ↦ (hx b hb).2, hq.disconnectedSockets ▸ h.doomed, ?_⟩
  intro e he b hb
  rw [hregistered] at he
  obtain ⟨he, hne⟩ := List.mem_filter.1 he
  refine List.mem_filter.2 ⟨h.watched e he b hb, decide_eq_true ?_⟩
  rintro rfl
  exact of_decide_eq_true hne hb

theorem destroySocket (h : Represents T s) (ha : a ∈ T.clients) :
    Represents ((T.put a .closed).unwatch a) (s.destroySocket (.client a)) := by
  have hp := h.holder ha
  have hq := Quiet.destroySocket (.client a) s
  rw [← (s.memory (.client a)).session_destroy]
  exact h.replace hq (hq.members ▸ h.inv.sound.destroySocket hp) (s.destroySocket_memory _)
    (congrArg Resources.registered (h.inv.sound.destroySocket_eq hp)) rfl

theorem connectSocket (h : Represents T s) (ha : a ∈ T.clients) (created : Option ℕ) :
    Represents ((T.put a { Session.closed with isOpen := created.isSome }).unwatch a)
      (s.connectSocket (.client a) created) := by
  have hp := h.holder ha
  have hq := Quiet.connectSocket (.client a) created s
  have hs := hq.members ▸ h.inv.sound.connectSocket hp created
  have hregistered : (s.connectSocket (.client a) created).registered = _ :=
    Eq.trans (by cases created <;> rfl)
      (congrArg Resources.registered (h.inv.sound.destroySocket_eq hp))
  obtain ⟨fd, hmemory, hopen⟩ := connectSocket_memory (.client a) created s
  have hr := h.replace hq hs hmemory hregistered rfl
  rwa [Socket.session_connect, hopen] at hr

theorem runOp (h : Represents T s) (op : ℕ × SocketOp) :
    Represents (T.act (op.1, op.2.abstract)) (s.runOp op) := by
  obtain ⟨a, op⟩ := op
  unfold Server.runOp Table.act
  dsimp only
  by_cases ha : a ∈ T.clients
  · have hle := h.bounded a ha
    rw [if_pos ha, if_pos (h.mem_iff.2 ha), h.inv.sound.touch (h.holder ha), ← h.session a ha]
    cases op with
    | consume rcvBuffer index =>
      exact h.put (x := { s.memory (.client a) with
        rcvBuffer := rcvBuffer, nextRcvValidIndex := index }) rfl hle
    | send data =>
      have hsent : ((s.memory (.client a)).send data).2.nextSendValidIndex ≤ tcpBufferSize := by
        rcases send_cases hle data with ⟨-, -, -, hle'⟩ | ⟨-, heq⟩
        · exact hle'
        · rwa [heq]
      have hr := h.put (send_frame _ data).1.fd hsent
      rwa [(Socket.session_send hle data).2] at hr
    | destroy => exact h.destroySocket ha
    | connect created => exact h.connectSocket ha created
  · rw [if_neg ha, if_neg (mt h.mem_iff.1 ha)]
    exact h

theorem runOps (h : Represents T s) (ops : List (ℕ × SocketOp)) :
    Represents (T.acts (abstractOps ops)) (s.runOps ops) := by
  induction ops generalizing T s with
  | nil => exact h
  | cons op ops ih => exact ih (h.runOp op)

end Represents

section Service

variable {T : Table} {s : Server} {a : ℕ} {l : List Ptr} {D : List ℕ}

theorem addUnique_client (h : l.filter (· ≠ .listener) = D.map .client) :
    (addUnique l (.client a)).filter (· ≠ .listener) =
      (if a ∈ D then D else D ++ [a]).map .client := by
  have hmem : .client a ∈ l ↔ a ∈ D := by
    rw [← List.mem_map_of_injective client_injective, ← h, List.mem_filter]
    simp
  by_cases ha : a ∈ D
  · rw [if_pos ha, addUnique_of_mem (hmem.2 ha), h]
  · rw [if_neg ha, addUnique_of_notMem (mt hmem.1 ha), List.filter_append, h, List.map_append]
    rfl

theorem addUnique_listener :
    (addUnique l .listener).filter (· ≠ .listener) = l.filter (· ≠ .listener) := by
  unfold addUnique
  split
  · rfl
  · simp

theorem callSocket_registered (hinv : Inv s) (env : RoundEnv) :
    (s.callSocket env .listener).2.registered = s.registered := by
  rw [callSocket_eq hinv (some_mem_holders.2 (.inl rfl))]
  rcases sendAndRecv_split (Server.place .listener) (env.io .listener)
    (fun _ ↦ Server.recvCallback env .listener) s (fun s t ↦ t.registered = s.registered)
    (fun _ ↦ rfl) (fun h h' ↦ h'.trans h) (fun _ _ _ ↦ rfl) with ⟨-, h⟩ | ⟨-, t, w, h, h'⟩
  · exact h
  · exact h'.trans h

namespace Represents

theorem emit (h : Represents T s) {e : Event} (hinv : Inv (s.emit e)) : Represents T (s.emit e) :=
  h.congr hinv rfl rfl (fun _ _ ↦ rfl) rfl fun _ he _ _ ↦ he

theorem doom (h : Represents T s) {e : Event} (hinv : Inv { s.emit e with
      disconnectedSockets := addUnique s.disconnectedSockets (.client a) }) :
    Represents (T.doom a) { s.emit e with
      disconnectedSockets := addUnique s.disconnectedSockets (.client a) } :=
  ⟨hinv, h.listening, h.clients, h.session, h.bounded, addUnique_client h.doomed, h.watched⟩

theorem callSocket (h : Represents T s) (ha : a ∈ T.clients) (env : RoundEnv) :
    (s.callSocket env (.client a)).1 = (T.exchange env.visit a).1 ∧
      Represents (T.exchange env.visit a).2 (s.callSocket env (.client a)).2 ∧
      a ∈ (T.exchange env.visit a).2.clients := by
  rw [callSocket_eq h.inv (h.holder ha)]
  refine sendAndRecv_exchange (Server.place (.client a)) (fun T : Table ↦ T.session a)
    (Table.put a) (env.io (.client a)) (fun _ ↦ Server.recvCallback env (.client a))
    (fun _ ↦ Table.acts (env.visit.callback a)) (fun s T ↦ Represents T s ∧ a ∈ T.clients)
    (fun s T h ↦ ⟨h.1.bounded a h.2, h.1.session a h.2⟩)
    (fun s T x h hfd hle ↦ ⟨h.1.put hfd hle, h.2⟩) ?_ ⟨h, ha⟩
  rintro - s T ⟨h, ha⟩
  have hcb := (h.emit (h.inv.emit (e := .recvCallback (.client a)) trivial)).runOps
    (env.callback (.client a))
  have hq := Quiet.runOps (env.callback (.client a)) (s.emit (.recvCallback (.client a)))
  refine ⟨hcb, hcb.mem_iff.1 ?_⟩
  rw [hq.sockets]
  exact h.mem_iff.2 ha

theorem serve (h : Represents T s) (ha : a ∈ T.clients) (env : RoundEnv) :
    (s.serve env (.client a)).1 = (T.serve env.visit a).1.2.returned ∧
      Represents (T.serve env.visit a).2 (s.serve env (.client a)).2 ∧
      observed (s.serve env (.client a)).2.log =
        observed s.log ++ [.served a (T.serve env.visit a).1.2] := by
  obtain ⟨hrecord, hcall, ha'⟩ := h.callSocket ha env
  obtain ⟨hinv, hs⟩ := h.inv.serve (.inl (h.mem_iff.2 ha)) env
  refine ⟨congrArg Record.returned hrecord, ?_, ?_⟩
  · have hflag : (s.callSocket env (.client a)).2.flagged (.client a) =
        (((T.exchange env.visit a).2.session a).recvDisconnected ||
          ((T.exchange env.visit a).2.session a).sendDisconnected) := by
      rw [← hcall.session a ha']
      rfl
    unfold Server.serve at hinv ⊢
    unfold Table.serve
    dsimp only at hinv ⊢
    rw [← hflag]
    generalize (s.callSocket env (.client a)).2.flagged (.client a) = d at hinv ⊢
    cases d with
    | false => exact hcall.emit hinv
    | true => exact hcall.doom hinv
  · obtain ⟨new, hlog, hnew⟩ := hs.events
    rw [hlog, observed_append, observed_append, observed_nil (served_hidden hnew), List.append_nil,
      hrecord]
    rfl

theorem receiveAll (h : Represents T s) (env : RoundEnv) (l : List ℕ)
    (hl : ∀ a ∈ l, a ∈ T.clients) (b : Bool) :
    ∃ t, (l.map .client).foldl (Server.receiveLoop env) (b, s) =
        ((feed (Table.serve env.visit) l T).1.any (fun r ↦ r.2.returned) || b, t) ∧
      Represents (feed (Table.serve env.visit) l T).2 t ∧
      observed t.log = observed s.log ++
        (feed (Table.serve env.visit) l T).1.map fun r ↦ .served r.1 r.2 := by
  induction l generalizing T s b with
  | nil => exact ⟨s, rfl, h, (List.append_nil _).symm⟩
  | cons a l ih =>
    have ha := hl a List.mem_cons_self
    have hp := h.mem_iff.2 ha
    obtain ⟨hret, hserve, hlog⟩ := h.serve ha env
    have hrest : ∀ c ∈ l, c ∈ (T.serve env.visit a).2.clients := by
      intro c hc
      rw [← hserve.mem_iff, (h.inv.serveRound (.inl hp) env).sockets]
      exact h.mem_iff.2 (hl c (List.mem_cons_of_mem _ hc))
    obtain ⟨t, hloop, ht, hlog'⟩ := ih hserve hrest ((s.serve env (.client a)).1 || b)
    refine ⟨t, ?_, ht, ?_⟩
    · rw [List.map_cons, List.foldl_cons, h.inv.receiveLoop_eq (.inl hp), hloop, hret, feed,
        List.any_cons, Bool.or_assoc, Bool.or_left_comm]
    · rw [hlog', hlog, List.append_assoc]
      rfl

theorem serveListener (h : Represents T s) (hp : s.known .listener) (env : RoundEnv) :
    Represents T (s.serve env .listener).2 ∧
      observed (s.serve env .listener).2.log = observed s.log := by
  have hs := serve_served env h.inv.sound (some_mem_holders.2 (.inl rfl))
  have hregistered : (s.serve env .listener).2.registered = s.registered :=
    callSocket_registered h.inv env
  refine ⟨h.congr ⟨hs.sound, h.inv.lists.served hp hs⟩ hs.efd hs.sockets
    (fun _ _ ↦ callSocket_listener h.inv env Ptr.noConfusion) ?_
    (fun e he _ _ ↦ hregistered ▸ he), ?_⟩
  · rw [hs.disconnectedSockets]
    split
    · exact addUnique_listener
    · rfl
  · obtain ⟨new, hlog, hnew⟩ := hs.events
    rw [hlog, observed_append, observed_append, observed_nil (served_hidden hnew), List.append_nil]
    exact List.append_nil _

theorem sendAll (h : Represents T s) (env : RoundEnv) (l : List Ptr) (hl : ∀ p ∈ l, s.known p) :
    Represents T (l.foldl (Server.sendLoop env) s) ∧
      observed (l.foldl (Server.sendLoop env) s).log = observed s.log := by
  induction l generalizing s with
  | nil => exact ⟨h, rfl⟩
  | cons p l ih =>
    have hp := hl p (by simp)
    have hrest : ∀ q ∈ l, s.known q := fun q hq ↦ hl q (by simp [hq])
    rw [List.foldl_cons, h.inv.sendLoop_eq hp]
    by_cases hmem : p ∈ s.sockets
    · rw [if_pos hmem]
      exact ih h hrest
    · rw [if_neg hmem]
      have hr := h.inv.serveRound hp env
      obtain rfl := (hp.resolve_left hmem).1
      obtain ⟨hserve, hlog⟩ := h.serveListener hp env
      rw [← hlog]
      exact ih hserve fun q hq ↦ hr.known (hrest q hq)

theorem sendAndRecv (h : Represents T s) (env : RoundEnv) :
    Represents (T.round env.visit).2 (s.sendAndRecv env) ∧
      observed (s.sendAndRecv env).log = observed s.log ++ (T.round env.visit).1 := by
  unfold Table.round Server.sendAndRecv
  rw [h.listening]
  by_cases hefd : s.efd < 0
  · rw [if_pos hefd, if_neg (by simpa using hefd)]
    exact ⟨h, (List.append_nil _).symm⟩
  rw [if_neg hefd, if_pos (by simpa using hefd), h.inv.lists.receive_eq, h.clients]
  obtain ⟨t, hloop, ht, hlog⟩ := h.receiveAll env T.clients (fun _ ha ↦ ha) false
  rw [hloop, Bool.or_false]
  generalize feed (Table.serve env.visit) T.clients T = r at ht hlog
  obtain ⟨records, T'⟩ := r
  dsimp only at ht hlog ⊢
  cases records.any fun r ↦ r.2.returned with
  | false =>
    obtain ⟨hr, hlog'⟩ := ht.sendAll env t.sendSockets ht.inv.lists.send_known
    exact ⟨hr, hlog'.trans hlog⟩
  | true =>
    have hfin := (ht.emit (ht.inv.emit (e := .recvFinished) trivial)).runOps env.finished
    have hq := Quiet.runOps env.finished (t.emit .recvFinished)
    obtain ⟨hr, hlog'⟩ := hfin.sendAll env _ hfin.inv.lists.send_known
    refine ⟨hr, hlog'.trans ?_⟩
    rw [hq.observed, if_pos rfl, ← List.append_assoc, ← hlog]
    exact observed_append t.log [.recvFinished]

end Represents

end Service

end LowLatency.TCPServer
