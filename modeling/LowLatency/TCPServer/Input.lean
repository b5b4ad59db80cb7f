import LowLatency.TCPServer.Defaults
import LowLatency.TCPServer.Replies
import Mathlib.Data.List.Infix
import Mathlib.Logic.Relation

namespace LowLatency.TCPServer

open Library.Handles Library.Words SocketUtils TCPSocket Function

def passedBy (r : Record) : List Byte :=
  if r.callback.isSome then (r.recvmsg.map RecvCall.bytes).getD [] else []

section History

variable (p : Ptr) (log : List Event)

def passed : List Byte := sinceAccepted p (fun bs record ↦ bs ++ passedBy record) [] log

/-- A `recvmsg` of the client has returned 0 or a fatal error since its acceptance. -/
def ended : Bool := sinceAccepted p (fun b record ↦ b || record.ended) false log

/-- Which connection of the client's address this is. -/
def generation : ℕ := log.count (.accepted p)

end History

/-- The server and what the peers have done: the bytes that have reached the
receive queue of each connection, and whether its peer has closed or reset it.
The queue holds what has arrived and was not passed on. -/
structure Inbound where
  server : Server
  arrived : Ptr → ℕ → List Byte
  closed : Ptr → ℕ → Bool

namespace Inbound

def initial (memory : Ptr → Socket) : Inbound := ⟨.new memory, fun _ _ ↦ [], fun _ _ ↦ false⟩

def input (w : Inbound) (p : Ptr) : List Byte := w.arrived p (generation p w.server.log)

def set {β : Type*} (w : Inbound) (p : Ptr) (f : Ptr → ℕ → β) (b : β) : Ptr → ℕ → β :=
  update f p (update (f p) (generation p w.server.log) b)

end Inbound

/-- What `recvmsg` can return for a queue: bytes from its front, and 0 or an
error once it is empty. -/
def QueueAnswers (queue : List Byte) : RecvResult → Prop
  | .received bytes _ => if bytes = [] then queue = [] else bytes <+: queue
  | .error _ => queue = []

instance (queue : List Byte) : ∀ kernel, Decidable (QueueAnswers queue kernel)
  | .received bytes _ =>
    inferInstanceAs (Decidable (if bytes = [] then queue = [] else bytes <+: queue))
  | .error _ => inferInstanceAs (Decidable (queue = []))

def Answers (arrived : Ptr → ℕ → List Byte) (env : RoundEnv) (p : Ptr) (s : Server) : Prop :=
  QueueAnswers ((arrived p (generation p s.log)).drop (passed p s.log).length) (env.io p).recv

instance (arrived : Ptr → ℕ → List Byte) (env : RoundEnv) (p : Ptr) (s : Server) :
    Decidable (Answers arrived env p s) :=
  inferInstanceAs (Decidable (QueueAnswers _ _))

def SocketOp.drains : SocketOp → Bool
  | .consume _ index => index = 0
  | .send _ => true
  | _ => false

/-- The receive callback consumes everything it is given, and may reply. -/
structure ConsumesAll (env : RoundEnv) : Prop where
  all : ∀ a, ∃ buffer, (a, .consume buffer 0) ∈ env.callback (.client a)
  callback : ∀ p, ∀ op ∈ env.callback p, op.2.drains = true
  finished : ∀ op ∈ env.finished, op.2.drains = true

/-- One call of the application, or one action of a peer. -/
inductive InboundStep (w : Inbound) : Inbound → Prop
  | listen (env : ListenEnv) : InboundStep w { w with server := (w.server.listen env).2 }
  | destroy : InboundStep w { w with server := w.server.destroy }
  -- No byte comes after the peer has closed or `recvmsg` has told the end.
  | arrive {p : Ptr} {bytes : List Byte} (hclosed : w.closed p (generation p w.server.log) = false)
      (hended : ended p w.server.log = false) :
      InboundStep w { w with arrived := w.set p w.arrived (w.input p ++ bytes) }
  | close (p : Ptr) : InboundStep w { w with closed := w.set p w.closed true }
  -- Epoll reports an error or a hang-up at any time after the close, or not at all.
  | poll {env : PollEnv}
      (hevents : ∀ events, env.wait = some events → ∀ event ∈ events,
        (event.err || event.hup) = true → event.ptr ≠ .listener →
        w.closed event.ptr (generation event.ptr w.server.log) = true) :
      InboundStep w { w with server := w.server.poll env }
  | sendAndRecv {env : RoundEnv} (hcallback : ConsumesAll env)
      (hkernel : 0 ≤ w.server.efd →
        EachService (Answers w.arrived) env w.server.receiveSockets w.server) :
      InboundStep w { w with server := w.server.sendAndRecv env }

/-- What is known of a client to whose connection the bytes `input` have come. -/
structure Ledger (input : List Byte) (p : Ptr) (x : Socket) (log : List Event) : Prop where
  order : passed p log <+: input
  complete : ended p log = true → passed p log = input
  empty : x.nextRcvValidIndex = 0
  bounded : x.nextSendValidIndex ≤ tcpBufferSize
  received : x.recvDisconnected = true → ended p log = true
  sent : x.sendDisconnected = true → excused p log = true
  scheduled : marked p log = true → excused p log = true ∨ ended p log = true

def Accounted (arrived : Ptr → ℕ → List Byte) (p : Ptr) (x : Socket) (log : List Event) : Prop :=
  Ledger (arrived p (generation p log)) p x log

section History

variable {p : Ptr} {log : List Event} {e : Event}

theorem passed_spared (he : e.spares p) : passed p (log ++ [e]) = passed p log :=
  sinceAccepted_spared p _ _ log he

theorem passed_append {new : List Event} (hnew : ∀ e ∈ new, e.spares p) :
    passed p (log ++ new) = passed p log :=
  sinceAccepted_append p _ _ log hnew

theorem ended_spared (he : e.spares p) : ended p (log ++ [e]) = ended p log :=
  sinceAccepted_spared p _ _ log he

theorem generation_append {new : List Event} (hnew : ∀ e ∈ new, e.spares p) :
    generation p (log ++ new) = generation p log := by
  have hnone : new.count (.accepted p) = 0 := List.count_eq_zero.2 fun hmem ↦ hnew _ hmem rfl
  rw [generation, List.count_append, hnone]
  rfl

theorem generation_spared (he : e.spares p) : generation p (log ++ [e]) = generation p log :=
  generation_append fun _ he' ↦ List.mem_singleton.1 he' ▸ he

end History

theorem perClient_accounted (arrived : Ptr → ℕ → List Byte) : PerClient (Accounted arrived) where
  joined p log sendBuffer rcvBuffer fd hmark := by
    have hpassed : passed p (log ++ [.accepted p]) = [] := sinceAccepted_accepted p _ _ log
    have hended : ended p (log ++ [.accepted p]) = false := sinceAccepted_accepted p _ _ log
    refine ⟨hpassed ▸ List.nil_prefix, fun h ↦ ?_, rfl, Nat.zero_le _, nofun, nofun, fun h ↦ ?_⟩
    · cases hended.symm.trans h
    · rw [marked_accepted, hmark] at h
      cases h
  spared p x log e h he := by
    obtain ⟨horder, hcomplete, hempty, hbounded, hreceived, hsent, hscheduled⟩ := h
    rw [Accounted, generation_spared he]
    refine ⟨?_, ?_, hempty, hbounded, ?_, ?_, ?_⟩
    · rwa [passed_spared he]
    · rwa [passed_spared he, ended_spared he]
    · rwa [ended_spared he]
    · intro hx
      rw [excused_spared he, hsent hx, Bool.true_or]
    · intro hm
      rw [excused_spared he, ended_spared he]
      rcases marked_spared he hm with hm | rfl
      · exact (hscheduled hm).imp_left fun hx ↦ by rw [hx, Bool.true_or]
      · exact .inl (by simp)

structure Mild (x y : Socket) : Prop where
  queues : Queues x y
  empty : x.nextRcvValidIndex = 0 → y.nextRcvValidIndex = 0

theorem Mild.refl (x : Socket) : Mild x x := ⟨.refl x, id⟩

theorem Mild.trans {x y z : Socket} (h : Mild x y) (h' : Mild y z) : Mild x z :=
  ⟨h.queues.trans h'.queues, h'.empty ∘ h.empty⟩

section Callbacks

variable {s : Server} {p : Ptr}

theorem SocketOp.replies_of_drains {op : SocketOp} (h : op.drains = true) : op.replies = true := by
  cases op with
  | consume | send => rfl
  | destroy | connect => cases h

theorem runOp_mild {op : ℕ × SocketOp} (hop : op.2.drains = true) (q : Ptr) :
    Mild (s.memory q) ((s.runOp op).memory q) := by
  obtain ⟨a, op⟩ := op
  refine ⟨runOp_queues (SocketOp.replies_of_drains hop) q, ?_⟩
  intro hq
  by_cases hmem : Ptr.client a ∈ s.sockets
  · cases op with
    | consume buffer index =>
      have hindex : index = 0 := of_decide_eq_true hop
      simp only [Server.runOp, if_pos hmem, Server.place, Server.touch]
      rcases eq_or_ne q (.client a) with rfl | hqa
      · rw [update_self]
        exact hindex
      · rwa [update_of_ne hqa]
    | send data =>
      simp only [Server.runOp, if_pos hmem, Server.place, Server.touch]
      rcases eq_or_ne q (.client a) with rfl | hqa
      · rw [update_self, (send_frame _ data).1.index]
        exact hq
      · rwa [update_of_ne hqa]
    | destroy | connect => cases hop
  · rwa [Server.runOp, if_neg hmem]

theorem runOps_mild {ops : List (ℕ × SocketOp)} (hops : ∀ op ∈ ops, op.2.drains = true) (q : Ptr) :
    Mild (s.memory q) ((s.runOps ops).memory q) := by
  induction ops generalizing s with
  | nil => exact .refl _
  | cons op ops ih =>
    exact (runOp_mild (hops op (by simp)) q).trans
      (ih (s := s.runOp op) fun op hop ↦ hops op (by simp [hop]))

theorem runOps_empties {ops : List (ℕ × SocketOp)} (hops : ∀ op ∈ ops, op.2.drains = true)
    {a : ℕ} (ha : .client a ∈ s.sockets) {buffer : ℕ → Byte}
    (hmem : (a, .consume buffer 0) ∈ ops) :
    ((s.runOps ops).memory (.client a)).nextRcvValidIndex = 0 := by
  obtain ⟨before, after, rfl⟩ := List.append_of_mem hmem
  have hsockets := (Quiet.runOps before s).sockets
  have hsplit : s.runOps (before ++ (a, .consume buffer 0) :: after) =
      ((s.runOps before).runOp (a, .consume buffer 0)).runOps after := List.foldl_append ..
  rw [hsplit]
  refine (runOps_mild (fun op hop ↦ hops op (by simp [hop])) _).empty ?_
  simp only [Server.runOp, hsockets, if_pos ha, Server.place, Server.touch, update_self]

theorem recvCallback_mild {env : RoundEnv} (henv : ConsumesAll env) (hp : p ≠ .listener) (q : Ptr) :
    Mild (s.memory q) ((s.recvCallback env p).memory q) := by
  unfold Server.recvCallback
  rw [if_neg hp]
  exact runOps_mild (s := s.emit (.recvCallback p)) (henv.callback p) q

theorem recvCallback_empties {env : RoundEnv} (henv : ConsumesAll env) {a : ℕ}
    (ha : .client a ∈ s.sockets) :
    ((s.recvCallback env (.client a)).memory (.client a)).nextRcvValidIndex = 0 := by
  obtain ⟨buffer, hmem⟩ := henv.all a
  exact runOps_empties (s := s.emit (.recvCallback (.client a))) (henv.callback _) ha hmem

end Callbacks

section Service

theorem QueueAnswers.call {queue : List Byte} {kernel : RecvResult} (h : QueueAnswers queue kernel)
    {x : Socket} (hroom : x.nextRcvValidIndex < tcpBufferSize) :
    (x.receive kernel).1.bytes <+: queue ∧
      ((x.receive kernel).1.ended = true → queue = []) := by
  rw [(receive_call hroom kernel).1]
  cases kernel with
  | received bytes control =>
    rw [receive_bytes]
    by_cases hnil : bytes = []
    · rw [QueueAnswers, if_pos hnil] at h
      rw [hnil, List.take_nil]
      exact ⟨List.nil_prefix, fun _ ↦ h⟩
    · rw [QueueAnswers, if_neg hnil] at h
      refine ⟨(List.take_prefix _ _).trans h, ?_⟩
      intro hends
      exact absurd (List.isEmpty_iff.1 hends) hnil
  | error e => exact ⟨List.nil_prefix, fun _ ↦ h⟩

variable {arrived : Ptr → ℕ → List Byte} {env : RoundEnv} {p : Ptr} {s : Server}

structure Handled (queue : List Byte) (x : Socket) (record : Record) (y : Socket) : Prop where
  passed : passedBy record <+: queue
  ends : record.ended = true → queue = []
  empty : y.nextRcvValidIndex = 0
  bounded : y.nextSendValidIndex ≤ tcpBufferSize
  received : y.recvDisconnected = (x.recvDisconnected || record.ended)
  sent : y.sendDisconnected = (x.sendDisconnected || record.sends.any SendCall.broken)

theorem Handled.exchange {queue : List Byte} {x z : Socket} {io : Io}
    (hqueue : QueueAnswers queue io.recv) (hroom : x.nextRcvValidIndex < tcpBufferSize)
    (hbounded : x.nextSendValidIndex ≤ tcpBufferSize)
    (hmild : Mild (x.receive io.recv).2.2 z) (hempty : z.nextRcvValidIndex = 0) :
    Handled queue x ⟨(x.receive io.recv).2.1.isSome, some (x.receive io.recv).1,
      (x.receive io.recv).2.1, (z.flush io.send).1⟩ (z.flush io.send).2 := by
  obtain ⟨hended, -, -⟩ := receive_call hroom io.recv
  obtain ⟨-, -, hsend, hflag⟩ := receive_frame x io.recv
  obtain ⟨hpassed, hends⟩ := hqueue.call hroom
  have hle : z.nextSendValidIndex ≤ tcpBufferSize := hmild.queues.bounded (hsend ▸ hbounded)
  obtain ⟨hbroken, hsent, -⟩ := flush_stalls io.send hle
  have hframe := flush_frame io.send z
  refine ⟨?_, hends, hframe.index.trans hempty, hsent.trans hle, ?_, ?_⟩
  · unfold passedBy
    split
    · exact hpassed
    · exact List.nil_prefix
  · rw [hframe.flag, hmild.queues.recv, (receive_ends hroom _).1, ← hended]
    rfl
  · rw [hbroken, hmild.queues.send, hflag]

theorem callSocket_handled (hinv : Inv s) {a : ℕ} (ha : .client a ∈ s.sockets)
    (henv : ConsumesAll env) (hempty : (s.memory (.client a)).nextRcvValidIndex = 0)
    (hbounded : (s.memory (.client a)).nextSendValidIndex ≤ tcpBufferSize) {queue : List Byte}
    (hqueue : QueueAnswers queue (env.io (.client a)).recv) :
    Handled queue (s.memory (.client a)) (s.callSocket env (.client a)).1
      ((s.callSocket env (.client a)).2.memory (.client a)) := by
  rw [callSocket_eq hinv (Server.mem_holders ha)]
  by_cases hfd : (s.memory (.client a)).fd < 0
  · rw [sendAndRecv_closed (Server.place (.client a)) _ _ s hfd]
    exact ⟨List.nil_prefix, nofun, hempty, hbounded, by simp [Record.none, Record.ended],
      by simp [Record.none]⟩
  have hfull : ¬ (s.memory (.client a)).nextRcvValidIndex ≥ tcpBufferSize := by
    rw [hempty]
    decide
  have hroom := Nat.lt_of_not_le hfull
  obtain ⟨w, hw, hcall⟩ := sendAndRecv_open (Server.place (.client a)) (env.io (.client a))
    (fun _ ↦ Server.recvCallback env (.client a)) s hfd hfull
  have hmid : Mild ((s.memory (.client a)).receive (env.io (.client a)).recv).2.2
      (w.memory (.client a)) ∧ (w.memory (.client a)).nextRcvValidIndex = 0 := by
    rcases hw with ⟨htime, rfl⟩ | ⟨t, -, rfl⟩
    · obtain ⟨-, hindex, hnone⟩ := receive_call hroom (env.io (.client a)).recv
      rw [Server.place_set_memory]
      refine ⟨.refl _, hindex.trans ?_⟩
      rw [hnone htime, hempty]
      rfl
    · have hmild := recvCallback_mild (s := (Server.place (.client a)).set
        ((s.memory (.client a)).receive (env.io (.client a)).recv).2.2 s) henv
        (by simp : Ptr.client a ≠ .listener) (.client a)
      rw [Server.place_set_memory] at hmild
      exact ⟨hmild, recvCallback_empties henv ha⟩
  rw [hcall, Server.place_set_memory]
  exact .exchange hqueue hroom hbounded hmid.1 hmid.2

theorem callSocket_mild (hinv : Inv s) (hp : p ∈ s.sockets) (henv : ConsumesAll env) {q : Ptr}
    (hq : q ≠ p) : Mild (s.memory q) ((s.callSocket env p).2.memory q) := by
  have hl : p ≠ .listener := fun heq ↦ hinv.listener_notMem (heq ▸ hp)
  have hset (s : Server) (x : Socket) :
      Mild (s.memory q) (((Server.place p).set x s).memory q) := by
    rw [s.place_set_elsewhere p x hq]
    exact .refl _
  rw [callSocket_eq hinv (Server.mem_holders hp)]
  rcases sendAndRecv_split (Server.place p) (env.io p) (fun _ ↦ Server.recvCallback env p) s
    (fun s t ↦ Mild (s.memory q) (t.memory q)) (fun _ ↦ .refl _) (fun h h' ↦ h.trans h')
    (fun s x _ ↦ hset s x) with ⟨-, h⟩ | ⟨-, t, w, h, h'⟩
  · exact h
  · exact (h.trans (recvCallback_mild henv hl q)).trans h'

theorem Ledger.mild {input : List Byte} {x y : Socket} {log : List Event} (h : Ledger input p x log)
    (hxy : Mild x y) : Ledger input p y log := by
  obtain ⟨⟨hrecv, hsend, hbounded⟩, hempty⟩ := hxy
  refine ⟨h.order, h.complete, hempty h.empty, hbounded h.bounded, ?_, ?_, h.scheduled⟩
  · rw [hrecv]
    exact h.received
  · rw [hsend]
    exact h.sent

theorem Ledger.served {input : List Byte} {x y : Socket} {log : List Event} {record : Record}
    (h : Ledger input p x log) (hh : Handled (input.drop (passed p log).length) x record y) :
    Ledger input p y
      (log ++ [.served p record (y.recvDisconnected || y.sendDisconnected)]) := by
  have hpassed (d : Bool) : passed p (log ++ [.served p record d]) =
      passed p log ++ passedBy record := sinceAccepted_served p _ _ log record d
  have hended (d : Bool) : ended p (log ++ [.served p record d]) =
      (ended p log || record.ended) := sinceAccepted_served p _ _ log record d
  have hexcused (d : Bool) : excused p (log ++ [.served p record d]) =
      (excused p log || record.sends.any SendCall.broken) := by
    rw [excused_concat, excuseStep, decide_eq_true rfl, Bool.true_and]
  have hmarked (d : Bool) : marked p (log ++ [.served p record d]) = (marked p log || d) := by
    rw [marked_concat, markStep, decide_eq_true rfl, Bool.and_true]
  have hrest : input = passed p log ++ input.drop (passed p log).length :=
    (List.prefix_iff_eq_append.1 h.order).symm
  have hflag : y.recvDisconnected = true → (ended p log || record.ended) = true := by
    rw [hh.received, Bool.or_eq_true, Bool.or_eq_true]
    exact Or.imp_left h.received
  have hbroken : y.sendDisconnected = true →
      (excused p log || record.sends.any SendCall.broken) = true := by
    rw [hh.sent, Bool.or_eq_true, Bool.or_eq_true]
    exact Or.imp_left h.sent
  refine ⟨?_, ?_, hh.empty, hh.bounded, ?_, ?_, ?_⟩
  · rw [hpassed, hrest]
    simpa using hh.passed
  · intro hend
    rw [hended, Bool.or_eq_true] at hend
    have hnil : input.drop (passed p log).length = [] := by
      rcases hend with hend | hend
      · rw [h.complete hend, List.drop_length]
      · exact hh.ends hend
    have hnone : passedBy record = [] := List.prefix_nil.1 (hnil ▸ hh.passed)
    rw [hpassed, hnone, List.append_nil]
    rwa [hnil, List.append_nil, eq_comm] at hrest
  · intro hr
    rw [hended]
    exact hflag hr
  · intro hs
    rw [hexcused]
    exact hbroken hs
  · intro hm
    rw [hexcused, hended]
    rw [hmarked, Bool.or_eq_true, Bool.or_eq_true] at hm
    rcases hm with hm | hr | hs
    · exact (h.scheduled hm).imp (fun hx ↦ by rw [hx, Bool.true_or])
        fun hx ↦ by rw [hx, Bool.true_or]
    · exact .inr (hflag hr)
    · exact .inl (hbroken hs)

theorem generation_served (log : List Event) (q : Ptr) (record : Record) (d : Bool) :
    generation p (log ++ [.served q record d]) = generation p log := by
  rw [generation, List.count_append, List.count_singleton, generation]
  rfl

theorem serve_accounted (hinv : Inv s) (hp : p ∈ s.sockets) (henv : ConsumesAll env)
    (h : s.Holds (Accounted arrived)) (hkernel : Answers arrived env p s) :
    (s.serve env p).2.Holds (Accounted arrived) := by
  have hs := serve_served env hinv.sound (Server.mem_holders hp)
  intro q hq
  rw [hs.sockets] at hq
  rcases eq_or_ne q p with rfl | hqp
  · obtain ⟨new, hlog, hnew⟩ := hs.spares
    have hmid : Accounted arrived q (s.memory q) (s.log ++ new) :=
      (perClient_accounted arrived).append (h q hq) (hnew q)
    obtain ⟨a, -, rfl⟩ := (hinv.sound.owned_iff q).1 hq
    rw [Answers, ← generation_append (hnew _), ← passed_append (hnew _)] at hkernel
    rw [hlog, Accounted, generation_served]
    exact hmid.served (callSocket_handled hinv hq henv hmid.empty hmid.bounded hkernel)
  · have hmid := (perClient_accounted arrived).served_elsewhere hs hqp (h q hq)
    exact Ledger.mild hmid (callSocket_mild hinv hp henv hqp)

end Service

section Run

theorem runOps_accounted {arrived : Ptr → ℕ → List Byte} {s : Server} {ops : List (ℕ × SocketOp)}
    (hops : ∀ op ∈ ops, op.2.drains = true) (h : s.Holds (Accounted arrived)) :
    (s.runOps ops).Holds (Accounted arrived) := by
  have hquiet := Quiet.runOps ops s
  obtain ⟨new, hlog, hnew⟩ := hquiet.log
  intro p hp
  rw [hquiet.sockets] at hp
  have hp' := (perClient_accounted arrived).append (h p hp) fun e he ↦ (hnew e he).spares p
  rw [hlog]
  exact Ledger.mild hp' (runOps_mild hops p)

variable {w w' : Inbound}

theorem accounted_arrive {p : Ptr} (hended : ended p w.server.log = false) (bytes : List Byte)
    (h : w.server.Holds (Accounted w.arrived)) :
    w.server.Holds (Accounted (w.set p w.arrived (w.input p ++ bytes))) := by
  intro q hq
  have hold := h q hq
  rcases eq_or_ne q p with rfl | hqp
  · have hnow : w.set q w.arrived (w.input q ++ bytes) q (generation q w.server.log) =
        w.input q ++ bytes := by
      rw [Inbound.set, update_self, update_self]
    rw [Accounted, hnow]
    refine ⟨hold.order.trans (List.prefix_append _ _), ?_, hold.empty, hold.bounded,
      hold.received, hold.sent, hold.scheduled⟩
    intro hend
    cases hended.symm.trans hend
  · have hsame : w.set p w.arrived (w.input p ++ bytes) q = w.arrived q := update_of_ne hqp _ _
    rw [Accounted, hsame]
    exact hold

theorem InboundStep.accounted (hstep : InboundStep w w') (hinv : Inv w.server)
    (h : w.server.Holds (Accounted w.arrived)) :
    Inv w'.server ∧ w'.server.Holds (Accounted w'.arrived) := by
  cases hstep with
  | listen env =>
    obtain ⟨hlisten, hnil, -⟩ := hinv.listen env
    exact ⟨hlisten, .of_nil hnil⟩
  | destroy => exact ⟨hinv.destroy.inv, .of_nil hinv.destroy.sockets⟩
  | arrive hclosed hended => exact ⟨hinv, accounted_arrive hended _ h⟩
  | close p => exact ⟨hinv, h⟩
  | @poll env hevents => exact ⟨hinv.poll env, (perClient_accounted _).poll h hinv env⟩
  | @sendAndRecv env hcallback hkernel =>
    refine ⟨hinv.sendAndRecv env, ?_⟩
    by_cases hefd : w.server.efd < 0
    · rwa [Server.sendAndRecv, if_pos hefd]
    · exact (perClient_accounted _).sendAndRecv
        (fun t p ht hp hh hans ↦ serve_accounted ht hp hcallback hh hans)
        (fun _ _ _ hh ↦ runOps_accounted hcallback.finished hh) h hinv (hkernel (not_lt.1 hefd))

theorem reachable_accounted {memory : Ptr → Socket}
    (h : Relation.ReflTransGen InboundStep (.initial memory) w) :
    Inv w.server ∧ w.server.Holds (Accounted w.arrived) := by
  induction h with
  | refl => exact ⟨(Idle.new memory).inv, .of_nil rfl⟩
  | tail _ hstep ih => exact hstep.accounted ih.1 ih.2

/-- A client that the next `poll()` deletes has had its whole input passed to the
callback, unless epoll has reported it or one of its `::send` calls has failed.
The rest of `poll()` deletes no client. -/
theorem run_hands_over_input {memory : Ptr → Socket}
    (h : Relation.ReflTransGen InboundStep (.initial memory) w) (hefd : 0 ≤ w.server.efd)
    (env : PollEnv) :
    ∃ gone, Deletes gone w.server (w.server.deleteDisconnected env) ∧
      (w.server.deleteDisconnected env).sockets <+: (w.server.poll env).sockets ∧
      ∀ p ∈ gone, passed p w.server.log = w.input p ∨ excused p w.server.log = true := by
  obtain ⟨hinv, hledger⟩ := reachable_accounted h
  refine ⟨_, hinv.deletes env, (hinv.poll_open env (not_lt.2 hefd)).sockets, ?_⟩
  intro p hp
  obtain ⟨hmem, hmark⟩ := (hinv.mem_disconnected p).1 hp
  have hclient := hledger p hmem
  rcases hclient.scheduled hmark with hx | hend
  · exact .inr hx
  · exact .inl (hclient.complete hend)

def connected (bytes : List Byte) : Inbound :=
  let s := run blank [listening, accepting [connection 5 0]]
  let w : Inbound := ⟨s, fun _ _ ↦ [], fun _ _ ↦ false⟩
  ⟨s, w.set (.client 0) w.arrived bytes, w.set (.client 0) w.closed true⟩

theorem connected_reachable (bytes : List Byte) :
    Relation.ReflTransGen InboundStep (.initial blank) (connected bytes) := by
  have hlisten := Relation.ReflTransGen.refl.tail
    (InboundStep.listen (w := .initial blank) ⟨some 3, some 4, true⟩)
  have haccept := hlisten.tail (@InboundStep.poll _ ⟨fun _ ↦ true,
    some [⟨.listener, false, false, true, false⟩], [connection 5 0], .eagain⟩ (by
      intro events hevents event he herr
      cases hevents
      cases List.mem_singleton.1 he
      cases herr))
  have harrive := haccept.tail (@InboundStep.arrive _ (.client 0) bytes rfl (by decide))
  exact harrive.tail (.close (.client 0))

def consuming (io : Io) (replies : List Data) : RoundEnv :=
  ⟨fun _ ↦ io, fun p ↦ match p with
    | .client a => (a, .consume (fun _ ↦ 0) 0) :: replies.map fun data ↦ (a, .send data)
    | _ => [], []⟩

theorem consuming_consumesAll (io : Io) (replies : List Data) :
    ConsumesAll (consuming io replies) := by
  refine ⟨fun a ↦ ⟨fun _ ↦ 0, List.mem_cons_self ..⟩, ?_, nofun⟩
  intro p op hop
  cases p with
  | client a =>
    rcases List.mem_cons.1 hop with rfl | hop
    · rfl
    · obtain ⟨data, -, rfl⟩ := List.mem_map.1 hop
      rfl
  | null | listener => cases hop

def quietPoll : PollEnv := ⟨fun _ ↦ true, some [], [], .eagain⟩

/-- Two ways to lose input. Epoll reports `EPOLLHUP` before the first round, and
the second of two calls of `poll()` in a row deletes the client. A reply fails
with `EPIPE` while a byte is still in the queue. -/
theorem run_drops_input :
    (∃ w, Relation.ReflTransGen InboundStep (.initial blank) w ∧
      deletions (w.server.poll quietPoll).log = [.client 0] ∧
      w.input (.client 0) = [7] ∧ passed (.client 0) w.server.log = []) ∧
    ∃ w, Relation.ReflTransGen InboundStep (.initial blank) w ∧
      deletions (w.server.poll quietPoll).log = [.client 0] ∧
      w.input (.client 0) = [7, 9] ∧ passed (.client 0) w.server.log = [7] := by
  constructor
  · have hhup := (connected_reachable [7]).tail (@InboundStep.poll _ ⟨fun _ ↦ true,
      some [⟨.client 0, false, true, false, false⟩], [], .eagain⟩ (by
        intro events hevents event he _ _
        cases hevents
        cases List.mem_singleton.1 he
        decide))
    exact ⟨_, hhup, by decide, by decide, by decide⟩
  · have hround := (connected_reachable [7, 9]).tail (.sendAndRecv
      (consuming_consumesAll ⟨.received [7] [], fun _ ↦ .error (.other 32)⟩ [.bytes [8]])
      fun _ ↦ ⟨by decide, trivial⟩)
    exact ⟨_, hround, by decide, by decide, by decide⟩

theorem run_hands_over_input_one :
    ∃ w : Inbound, deletions (w.server.poll quietPoll).log = [.client 0] ∧
      w.input (.client 0) = [7] ∧ excused (.client 0) w.server.log = false ∧
      ∃ gone, Deletes gone w.server (w.server.deleteDisconnected quietPoll) ∧
        ∀ p ∈ gone, passed p w.server.log = w.input p ∨ excused p w.server.log = true := by
  have hround := (connected_reachable [7]).tail (.sendAndRecv
    (consuming_consumesAll ⟨.received [7] [], fun _ ↦ .error .eagain⟩ [])
    fun _ ↦ ⟨by decide, trivial⟩)
  have hend := hround.tail (.sendAndRecv
    (consuming_consumesAll ⟨.received [] [], fun _ ↦ .error .eagain⟩ [])
    fun _ ↦ ⟨by decide, trivial⟩)
  obtain ⟨gone, hgone, -, hpassed⟩ := run_hands_over_input hend (by decide) quietPoll
  exact ⟨_, by decide, by decide, by decide, gone, hgone, hpassed⟩

end Run

end LowLatency.TCPServer
