import LowLatency.TCPServer.Disconnection

namespace LowLatency.TCPServer

open Library.Handles Library.ByteBuffer Library.Words SocketUtils TCPSocket Function

def excuseStep (p : Ptr) (m : Bool) : Event → Bool
  | .accepted q => m && decide (q ≠ p)
  | .reported q => m || decide (q = p)
  | .served q record _ => m || (decide (q = p) && record.sends.any SendCall.broken)
  | _ => m

/-- Since the client was accepted, `EPOLLERR` or `EPOLLHUP` was reported for it
or one of its `::send` calls failed with an error that is not temporary. -/
def excused (p : Ptr) (log : List Event) : Bool := log.foldl (excuseStep p) false

section Excused

variable (p : Ptr) (log : List Event)

theorem excused_concat (e : Event) : excused p (log ++ [e]) = excuseStep p (excused p log) e := by
  rw [excused, List.foldl_concat]
  rfl

theorem excused_append {new : List Event} (h : ∀ e ∈ new, ∀ m, excuseStep p m e = m) :
    excused p (log ++ new) = excused p log := by
  induction new using List.reverseRecOn with
  | nil => rw [List.append_nil]
  | append_singleton new e ih =>
    rw [← List.append_assoc, excused_concat, ih fun e he ↦ h e (by simp [he]), h e (by simp)]

theorem excuseStep_passive {e : Event} (he : e.passive) (m : Bool) : excuseStep p m e = m := by
  cases e <;> first | rfl | exact he.elim

theorem excused_passive {new : List Event} (h : ∀ e ∈ new, e.passive) :
    excused p (log ++ new) = excused p log :=
  excused_append p log fun e he ↦ excuseStep_passive p (h e he)

end Excused

theorem excused_spared {p : Ptr} {log : List Event} {e : Event} (he : e.spares p) :
    excused p (log ++ [e]) = (excused p log || decide (e = .reported p)) := by
  rw [excused_concat]
  cases e with
  | accepted q =>
    have hne : q ≠ p := he
    simp [excuseStep, hne]
  | served q record d =>
    have hne : q ≠ p := he
    simp [excuseStep, hne]
  | reported q => simp [excuseStep]
  | _ => simp [excuseStep]

section Queue

/-- What `send()` takes into an empty buffer. -/
def queueable (data : Data) : Bool :=
  0 < data.contents.length && data.contents.length ≤ tcpBufferSize

def queueStep (p : Ptr) (n : ℕ) (op : ℕ × SocketOp) : ℕ :=
  match op.2 with
  | .send data =>
    if .client op.1 = p ∧ n + data.contents.length ≤ tcpBufferSize
    then n + data.contents.length else n
  | _ => n

/-- How many bytes the actions of a callback leave in the send buffer of `p`, if
there are `n` before. -/
def queuedBy (p : Ptr) (ops : List (ℕ × SocketOp)) (n : ℕ) : ℕ := ops.foldl (queueStep p) n

variable {p : Ptr}

theorem queueable_iff {data : Data} : queueable data = true ↔
    0 < data.contents.length ∧ data.contents.length ≤ tcpBufferSize := by
  rw [queueable, Bool.and_eq_true, decide_eq_true_eq, decide_eq_true_eq]

theorem le_queueStep (p : Ptr) (n : ℕ) (op : ℕ × SocketOp) : n ≤ queueStep p n op := by
  unfold queueStep
  split
  · split
    · exact Nat.le_add_right _ _
    · exact le_rfl
  · exact le_rfl

theorem le_queuedBy (p : Ptr) (ops : List (ℕ × SocketOp)) (n : ℕ) : n ≤ queuedBy p ops n := by
  induction ops generalizing n with
  | nil => exact le_rfl
  | cons op ops ih => exact (le_queueStep p n op).trans (ih _)

theorem queueStep_zero (op : ℕ × SocketOp) : queueStep p 0 op = 0 ↔
    ∀ data, op.2 = .send data → .client op.1 = p → queueable data = false := by
  unfold queueStep
  split
  next data hdata =>
    rw [Nat.zero_add]
    constructor
    · intro hzero data' hdata' hp
      cases hdata.symm.trans hdata'
      rw [← Bool.not_eq_true, queueable_iff]
      rintro ⟨hpos, hle⟩
      rw [if_pos ⟨hp, hle⟩] at hzero
      omega
    · intro h
      split
      next hif =>
        have hno := h data hdata hif.1
        rw [← Bool.not_eq_true, queueable_iff] at hno
        omega
      next => rfl
  next hother => exact iff_of_true rfl fun data hdata ↦ absurd hdata (hother data)

theorem queuedBy_zero (ops : List (ℕ × SocketOp)) : queuedBy p ops 0 = 0 ↔
    ∀ a data, (a, .send data) ∈ ops → .client a = p → queueable data = false := by
  induction ops with
  | nil => simp [queuedBy]
  | cons op ops ih =>
    have hcons : queuedBy p (op :: ops) 0 = queuedBy p ops (queueStep p 0 op) := rfl
    constructor
    · intro hzero a data hmem hp
      have hstep : queueStep p 0 op = 0 :=
        Nat.le_zero.1 ((le_queuedBy p ops _).trans (hcons.symm.trans hzero).le)
      rcases List.mem_cons.1 hmem with rfl | hmem
      · exact (queueStep_zero _).1 hstep data rfl hp
      · rw [hcons, hstep] at hzero
        exact ih.1 hzero a data hmem hp
    · intro h
      have hstep : queueStep p 0 op = 0 := by
        obtain ⟨a, op⟩ := op
        refine (queueStep_zero _).2 ?_
        rintro data rfl hp
        exact h a data List.mem_cons_self hp
      rw [hcons, hstep]
      exact ih.2 fun a data hmem ↦ h a data (List.mem_cons_of_mem _ hmem)

theorem send_index {x : Socket} (hle : x.nextSendValidIndex ≤ tcpBufferSize) (data : Data) :
    (x.send data).2.nextSendValidIndex =
      if x.nextSendValidIndex + data.contents.length ≤ tcpBufferSize
      then x.nextSendValidIndex + data.contents.length else x.nextSendValidIndex := by
  have hsize := tcpBufferSize_lt
  unfold Socket.send
  cases data with
  | null len => split <;> simp [Data.contents]
  | bytes bs =>
    rw [show (Data.bytes bs).contents = bs from rfl]
    simp only [Data.len, sizeSub_eq hle]
    by_cases hzero : bs.length = 0
    · simp [hzero]
    rw [if_neg hzero]
    by_cases hroom : x.nextSendValidIndex + bs.length ≤ tcpBufferSize
    · rw [if_neg (by omega), if_pos hroom]
      exact sizeAdd_eq (Nat.lt_of_le_of_lt hroom hsize)
    · rw [if_pos (by omega), if_neg hroom]

variable {s : Server}

theorem runOp_index {op : ℕ × SocketOp} (hop : op.2.replies = true) (hp : p ∈ s.sockets)
    (hle : (s.memory p).nextSendValidIndex ≤ tcpBufferSize) :
    ((s.runOp op).memory p).nextSendValidIndex =
      queueStep p (s.memory p).nextSendValidIndex op := by
  obtain ⟨a, op⟩ := op
  by_cases hmem : Ptr.client a ∈ s.sockets
  · cases op with
    | consume rcvBuffer index =>
      simp only [Server.runOp, if_pos hmem, Server.place, Server.touch, queueStep]
      rcases eq_or_ne p (.client a) with rfl | hne
      · rw [update_self]
      · rw [update_of_ne hne]
    | send data =>
      simp only [Server.runOp, if_pos hmem, Server.place, Server.touch, queueStep]
      rcases eq_or_ne p (.client a) with rfl | hne
      · rw [update_self, send_index hle]
        simp only [true_and]
      · rw [update_of_ne hne, if_neg fun h ↦ hne h.1.symm]
    | destroy => cases hop
    | connect created => cases hop
  · have hne : .client a ≠ p := fun heq ↦ hmem (heq ▸ hp)
    rw [Server.runOp, if_neg hmem, queueStep]
    cases op with
    | send data => exact (if_neg fun h ↦ hne h.1).symm
    | _ => rfl

theorem runOps_index {ops : List (ℕ × SocketOp)} (hops : ∀ op ∈ ops, op.2.replies = true)
    (hp : p ∈ s.sockets) (hle : (s.memory p).nextSendValidIndex ≤ tcpBufferSize) :
    ((s.runOps ops).memory p).nextSendValidIndex =
      queuedBy p ops (s.memory p).nextSendValidIndex := by
  induction ops generalizing s with
  | nil => rfl
  | cons op ops ih =>
    have hop := hops op (by simp)
    rw [queuedBy, List.foldl_cons, ← runOp_index hop hp hle]
    exact ih (fun op hop ↦ hops op (by simp [hop])) ((Quiet.runOp s op).sockets ▸ hp)
      ((runOp_queues hop p).bounded hle)

end Queue

section Service

variable {env : RoundEnv} {p q : Ptr} {s : Server}

/-- The actions of the receive callback in a service of `p`, if it runs. -/
def RoundEnv.script (env : RoundEnv) (p : Ptr) (s : Server) : List (ℕ × SocketOp) :=
  if 0 ≤ (s.memory p).fd ∧ (s.memory p).nextRcvValidIndex < tcpBufferSize ∧
      (env.io p).recv.delivers = true
  then env.callback p else []

structure Scripted (p : Ptr) (ops : List (ℕ × SocketOp)) (x y : Socket) : Prop where
  queues : Queues x y
  index : y.nextSendValidIndex = queuedBy p ops x.nextSendValidIndex

theorem Scripted.refl (p : Ptr) (x : Socket) : Scripted p [] x x := ⟨.refl x, rfl⟩

theorem runOps_scripted {ops : List (ℕ × SocketOp)} (hops : ∀ op ∈ ops, op.2.replies = true)
    (hp : p ∈ s.sockets) (hle : (s.memory p).nextSendValidIndex ≤ tcpBufferSize) :
    Scripted p ops (s.memory p) ((s.runOps ops).memory p) :=
  ⟨runOps_queues hops p, runOps_index hops hp hle⟩

/-- What a service does to its own socket. -/
inductive Exchanged (io : Io) (p : Ptr) (ops : List (ℕ × SocketOp)) (x : Socket) :
    List SendCall → Socket → Prop
  | closed : x.fd < 0 → Exchanged io p ops x [] x
  | full : 0 ≤ x.fd → tcpBufferSize ≤ x.nextRcvValidIndex →
      Exchanged io p ops x [] { x with recvDisconnected := true }
  | flushed {z : Socket} : 0 ≤ x.fd → x.nextRcvValidIndex < tcpBufferSize →
      Scripted p ops { x with recvDisconnected := x.recvDisconnected || io.recv.ends } z →
      Exchanged io p ops x (z.flush io.send).1 (z.flush io.send).2

theorem received_scripted {w : Server} {y : Socket} {time : Option Nanos} (hl : p ≠ .listener)
    (hfd : 0 ≤ (s.memory p).fd) (hroom : (s.memory p).nextRcvValidIndex < tcpBufferSize)
    (hops : ∀ op ∈ env.callback p, op.2.replies = true)
    (htime : time.isSome = (env.io p).recv.delivers)
    (hw : time = none ∧ w = (Server.place p).set y s ∨
      ∃ t, time = some t ∧ w = ((Server.place p).set y s).recvCallback env p)
    (hq : q ∈ s.sockets)
    (hle : (((Server.place p).set y s).memory q).nextSendValidIndex ≤ tcpBufferSize) :
    Scripted q (env.script p s) (((Server.place p).set y s).memory q) (w.memory q) := by
  rcases hw with ⟨rfl, rfl⟩ | ⟨t, rfl, rfl⟩
  · have hscript : env.script p s = [] := if_neg fun h ↦
      absurd (htime.trans h.2.2) Bool.false_ne_true
    rw [hscript]
    exact .refl q _
  · have hscript : env.script p s = env.callback p := if_pos ⟨hfd, hroom, htime.symm⟩
    unfold Server.recvCallback
    rw [if_neg hl, hscript]
    exact runOps_scripted (s := ((Server.place p).set y s).emit (.recvCallback p)) hops hq hle

theorem callSocket_scripted (hinv : Inv s) (hp : p ∈ s.sockets)
    (hops : ∀ op ∈ env.callback p, op.2.replies = true)
    (hle : ∀ q ∈ s.sockets, (s.memory q).nextSendValidIndex ≤ tcpBufferSize) :
    Exchanged (env.io p) p (env.script p s) (s.memory p) (s.callSocket env p).1.sends
        ((s.callSocket env p).2.memory p) ∧
      ∀ q ∈ s.sockets, q ≠ p →
        Scripted q (env.script p s) (s.memory q) ((s.callSocket env p).2.memory q) := by
  rw [callSocket_eq hinv (Server.mem_holders hp)]
  by_cases hfd : (s.memory p).fd < 0
  · have hscript : env.script p s = [] := if_neg fun h ↦ absurd h.1 (not_le.2 hfd)
    rw [sendAndRecv_closed (Server.place p) _ _ s hfd, hscript]
    exact ⟨.closed hfd, fun q _ _ ↦ .refl q _⟩
  by_cases hfull : (s.memory p).nextRcvValidIndex ≥ tcpBufferSize
  · have hscript : env.script p s = [] := if_neg fun h ↦ absurd h.2.1 (not_lt.2 hfull)
    rw [sendAndRecv_full (Server.place p) _ _ s hfd hfull, hscript]
    refine ⟨?_, fun q _ hq ↦ ?_⟩
    · simp only [Server.place, update_self]
      exact .full (not_lt.1 hfd) hfull
    · rw [s.place_set_elsewhere p _ hq]
      exact .refl q _
  have hroom := not_le.1 hfull
  have hl : p ≠ .listener := fun heq ↦ hinv.listener_notMem (heq ▸ hp)
  obtain ⟨w, hw, hcall⟩ := sendAndRecv_open (Server.place p) (env.io p)
    (fun _ ↦ Server.recvCallback env p) s hfd hfull
  obtain ⟨hends, htime⟩ := receive_ends hroom (env.io p).recv
  obtain ⟨-, -, hindex, hflag⟩ := receive_frame (s.memory p) (env.io p).recv
  have hscripted := fun q ↦ received_scripted (q := q) hl (not_lt.1 hfd) hroom hops htime hw
  rw [hcall]
  refine ⟨?_, fun q hq hqp ↦ ?_⟩
  · have hown := hscripted p hp
    simp only [Server.place, update_self] at hown ⊢
    obtain ⟨hqueues, hqueued⟩ := hown (hindex ▸ hle p hp)
    refine .flushed (not_lt.1 hfd) hroom ⟨⟨hqueues.recv.trans hends, hqueues.send.trans hflag,
      fun h ↦ hqueues.bounded (hindex ▸ h)⟩, ?_⟩
    rw [hqueued, hindex]
  · have hother := hscripted q hq
    simp only [Server.place, update_of_ne hqp] at hother ⊢
    exact hother (hle q hq)

end Service

section Histories

variable {p : Ptr} {s t : Server}

/-- What is known of a client in any case: it is given up only with a flag set
or an excuse, and a send side that fails is an excuse. -/
structure Sane (p : Ptr) (x : Socket) (log : List Event) : Prop where
  bounded : x.nextSendValidIndex ≤ tcpBufferSize
  sent : x.sendDisconnected = true → excused p log = true
  scheduled : marked p log = true →
    excused p log = true ∨ (x.recvDisconnected || x.sendDisconnected) = true

/-- A client that has lost its receive side has nothing left to send, unless it
is excused. -/
def Settled (p : Ptr) (x : Socket) (log : List Event) : Prop :=
  x.recvDisconnected = true → x.nextSendValidIndex = 0 ∨ excused p log = true

theorem excused_kept {log : List Event} {e : Event} (he : e.spares p)
    (h : excused p log = true) : excused p (log ++ [e]) = true := by
  rw [excused_spared he, h, Bool.true_or]

theorem perClient_sane : PerClient Sane where
  joined p log sendBuffer rcvBuffer fd hmark := by
    refine ⟨Nat.zero_le _, fun hs ↦ absurd hs Bool.false_ne_true, ?_⟩
    intro hm
    rw [marked_accepted, hmark] at hm
    cases hm
  spared p x log e h he := by
    refine ⟨h.bounded, fun hs ↦ excused_kept he (h.sent hs), ?_⟩
    intro hm
    rcases marked_spared he hm with hm | rfl
    · exact (h.scheduled hm).imp_left (excused_kept he)
    · left
      rw [excused_spared he, decide_eq_true rfl, Bool.or_true]

theorem Sane.queues {x y : Socket} {log log' : List Event} (h : Sane p x log) (hq : Queues x y)
    (hexcused : excused p log' = excused p log)
    (hmarked : marked p log' = true → marked p log = true) : Sane p y log' := by
  refine ⟨hq.bounded h.bounded, ?_, ?_⟩
  · rw [hq.send, hexcused]
    exact h.sent
  · rw [hexcused, hq.recv, hq.send]
    exact h.scheduled ∘ hmarked

theorem perClient_settled : PerClient Settled where
  joined _ _ _ _ _ _ := fun hr ↦ absurd hr Bool.false_ne_true
  spared _ _ _ _ h he := fun hr ↦ (h hr).imp_right (excused_kept he)

theorem Served.excused {record : Record} {d : Bool} (hs : Served p record d s t) (q : Ptr) :
    excused q t.log =
      (excused q s.log || (decide (p = q) && record.sends.any SendCall.broken)) := by
  obtain ⟨new, hlog, hnew⟩ := hs.events
  rw [hlog, excused_concat, excused_passive]
  · rfl
  · intro e he
    rcases hnew e he with he | rfl
    · exact he.passive
    · trivial

theorem Exchanged.bounded {io : Io} {ops : List (ℕ × SocketOp)} {x y : Socket}
    {sends : List SendCall} (h : Exchanged io p ops x sends y)
    (hle : x.nextSendValidIndex ≤ tcpBufferSize) : y.nextSendValidIndex ≤ tcpBufferSize := by
  cases h with
  | closed _ => exact hle
  | full _ _ => exact hle
  | flushed _ _ hz =>
    have hz := hz.queues.bounded hle
    exact (flush_stalls io.send hz).2.1.trans hz

theorem Exchanged.flags {io : Io} {ops : List (ℕ × SocketOp)} {x y : Socket}
    {sends : List SendCall} (h : Exchanged io p ops x sends y)
    (hle : x.nextSendValidIndex ≤ tcpBufferSize) :
    (x.recvDisconnected = true → y.recvDisconnected = true) ∧
      y.sendDisconnected = (x.sendDisconnected || sends.any SendCall.broken) := by
  cases h with
  | closed _ => exact ⟨id, (Bool.or_false _).symm⟩
  | full _ _ => exact ⟨fun _ ↦ rfl, (Bool.or_false _).symm⟩
  | @flushed z _ _ hz =>
    rw [(flush_frame io.send z).flag, (flush_stalls io.send (hz.queues.bounded hle)).1,
      hz.queues.recv, hz.queues.send]
    refine ⟨?_, rfl⟩
    intro hx
    rw [hx, Bool.true_or]

end Histories

section Fits

variable {env : RoundEnv} {p q : Ptr} {s : Server} {l : List Ptr}

/-- If `p` comes out of its call without a receive side, then with an empty send
buffer, unless a fatal `::send` has excused it. -/
def CallFits (env : RoundEnv) (p : Ptr) (s : Server) : Prop :=
  if (s.memory p).fd < 0 then
    (s.memory p).recvDisconnected = true → (s.memory p).nextSendValidIndex = 0
  else if tcpBufferSize ≤ (s.memory p).nextRcvValidIndex then (s.memory p).nextSendValidIndex = 0
  else ((s.memory p).recvDisconnected || (env.io p).recv.ends) = true →
    ¬ Stalls (env.io p).send 0 (queuedBy p (env.script p s) (s.memory p).nextSendValidIndex)

/-- Nothing that a buffer takes is sent to a client that has lost its receive
side, is not excused and is not `due` to be served. -/
def OpsFit (due : List Ptr) (ops : List (ℕ × SocketOp)) (s : Server) : Prop :=
  ∀ a data, (a, .send data) ∈ ops → .client a ∈ s.sockets → .client a ∉ due →
    (s.memory (.client a)).recvDisconnected = true → excused (.client a) s.log = false →
    queueable data = false

structure ServiceFits (env : RoundEnv) (later : List Ptr) (p : Ptr) (s : Server) : Prop where
  own : excused p s.log = false → CallFits env p s
  others : OpsFit (p :: later) (env.script p s) s

def SettledBut (due : List Ptr) (s : Server) : Prop :=
  ∀ q ∈ s.sockets, q ∉ due → Settled q (s.memory q) s.log

theorem Exchanged.settled_iff {x y : Socket} {sends : List SendCall} {log log' : List Event}
    (h : Exchanged (env.io p) p (env.script p s) x sends y) (hx : s.memory p = x)
    (hle : x.nextSendValidIndex ≤ tcpBufferSize)
    (hlog : excused p log' = (excused p log || sends.any SendCall.broken)) :
    Settled p y log' ↔ excused p log = false → CallFits env p s := by
  cases hexcused : excused p log with
  | true =>
    rw [hexcused, Bool.true_or] at hlog
    exact iff_of_true (fun _ ↦ .inr hlog) fun he ↦ absurd he.symm Bool.false_ne_true
  | false =>
    rw [hexcused, Bool.false_or] at hlog
    rw [Settled, hlog, CallFits, hx]
    simp only [true_imp_iff]
    cases h with
    | closed hfd => rw [if_pos hfd, List.any_nil, or_iff_left Bool.false_ne_true]
    | full hfd hfull =>
      rw [if_neg (not_lt.2 hfd), if_pos hfull, List.any_nil, or_iff_left Bool.false_ne_true]
      exact ⟨fun h ↦ h rfl, fun h _ ↦ h⟩
    | @flushed z hfd hroom hz =>
      obtain ⟨-, -, hstalls⟩ := flush_stalls (env.io p).send (hz.queues.bounded hle)
      rw [if_neg (not_lt.2 hfd), if_neg (not_le.2 hroom), (flush_frame _ z).flag, hz.queues.recv,
        ← hz.index, ← hstalls, not_and_or, not_not, Bool.not_eq_false]

theorem opsFit_iff {ops : List (ℕ × SocketOp)} (h : SettledBut l s) :
    OpsFit l ops s ↔ ∀ q ∈ s.sockets, q ∉ l → (s.memory q).recvDisconnected = true →
      excused q s.log = false → queuedBy q ops (s.memory q).nextSendValidIndex = 0 := by
  have hempty : ∀ q ∈ s.sockets, q ∉ l → (s.memory q).recvDisconnected = true →
      excused q s.log = false → (s.memory q).nextSendValidIndex = 0 := fun q hq hl hr he ↦
    (h q hq hl hr).resolve_right fun he' ↦ absurd (he.symm.trans he') Bool.false_ne_true
  constructor
  · intro hfit q hq hl hr he
    rw [hempty q hq hl hr he, queuedBy_zero]
    rintro a data hmem rfl
    exact hfit a data hmem hq hl hr he
  · intro hall a data hmem hq hl hr he
    have hzero := hall _ hq hl hr he
    rw [hempty _ hq hl hr he, queuedBy_zero] at hzero
    exact hzero a data hmem rfl

theorem Scripted.settled_iff {ops : List (ℕ × SocketOp)} {x y : Socket} {log log' : List Event}
    (h : Scripted q ops x y) (hlog : excused q log' = excused q log) :
    Settled q y log' ↔ (x.recvDisconnected = true → excused q log = false →
      queuedBy q ops x.nextSendValidIndex = 0) := by
  rw [Settled, h.queues.recv, h.index, hlog]
  refine imp_congr_right fun _ ↦ ?_
  rw [← Bool.not_eq_true, or_iff_not_imp_right]

theorem Scripted.settled_of {ops : List (ℕ × SocketOp)} {x y : Socket} {log log' : List Event}
    (h : Scripted q ops x y) (hlog : excused q log' = excused q log) (hy : Settled q y log') :
    Settled q x log := by
  intro hr
  refine (hy (h.queues.recv.trans hr)).imp (fun hzero ↦ ?_) fun he ↦ hlog.symm.trans he
  exact Nat.le_zero.1 ((le_queuedBy q ops _).trans (h.index.symm.trans hzero).le)

structure Serving (env : RoundEnv) (p : Ptr) (s : Server) : Prop where
  inv : Inv s
  member : p ∈ s.sockets
  callback : ∀ op ∈ env.callback p, op.2.replies = true
  sane : s.Holds Sane

namespace Serving

theorem served (h : Serving env p s) : Served p (s.callSocket env p).1
    ((s.callSocket env p).2.flagged p) s (s.serve env p).2 :=
  serve_served env h.inv.sound (Server.mem_holders h.member)

theorem own (h : Serving env p s) : Exchanged (env.io p) p (env.script p s) (s.memory p)
    (s.callSocket env p).1.sends ((s.serve env p).2.memory p) :=
  (callSocket_scripted h.inv h.member h.callback fun q hq ↦ (h.sane q hq).bounded).1

theorem other (h : Serving env p s) (hq : q ∈ s.sockets) (hne : q ≠ p) :
    Scripted q (env.script p s) (s.memory q) ((s.serve env p).2.memory q) :=
  (callSocket_scripted h.inv h.member h.callback fun q hq ↦ (h.sane q hq).bounded).2 q hq hne

theorem excused_own (h : Serving env p s) : excused p (s.serve env p).2.log =
    (excused p s.log || (s.callSocket env p).1.sends.any SendCall.broken) := by
  rw [h.served.excused, decide_eq_true rfl, Bool.true_and]

theorem excused_other (h : Serving env p s) (hne : q ≠ p) :
    excused q (s.serve env p).2.log = excused q s.log := by
  rw [h.served.excused, decide_eq_false hne.symm, Bool.false_and, Bool.or_false]

theorem sane_own (h : Serving env p s) :
    Sane p ((s.serve env p).2.memory p) (s.serve env p).2.log := by
  have hp := h.sane p h.member
  have hflags := h.own.flags hp.bounded
  refine ⟨h.own.bounded hp.bounded, ?_, ?_⟩
  · rw [hflags.2, h.excused_own, Bool.or_eq_true, Bool.or_eq_true]
    exact Or.imp_left hp.sent
  · intro hm
    rw [← (h.inv.serve (.inl h.member) env).1.lists.marked_iff,
      h.served.disconnectedSockets] at hm
    split at hm
    next hnow => exact .inr hnow
    next =>
      have hold := hp.scheduled ((h.inv.lists.marked_iff p).1 hm)
      rw [h.excused_own, hflags.2]
      simp only [Bool.or_eq_true] at hold ⊢
      rcases hold with he | hr | hs
      · exact .inl (.inl he)
      · exact .inr (.inl (hflags.1 hr))
      · exact .inr (.inr (.inl hs))

theorem sane_other (h : Serving env p s) (hq : q ∈ s.sockets) (hne : q ≠ p) :
    Sane q ((s.serve env p).2.memory q) (s.serve env p).2.log := by
  have hround := h.inv.serveRound (.inl h.member) env
  refine (h.sane q hq).queues (h.other hq hne).queues (h.excused_other hne) ?_
  rw [← hround.inv.lists.marked_iff, hround.disconnected q (mt List.mem_singleton.1 hne),
    h.inv.lists.marked_iff]
  exact id

theorem sane_serve (h : Serving env p s) : (s.serve env p).2.Holds Sane := by
  intro q hq
  rw [h.served.sockets] at hq
  rcases eq_or_ne q p with rfl | hne
  · exact h.sane_own
  · exact h.sane_other hq hne

/-- One step of the loop: everybody who is not due is settled behind a service
exactly when it fits. -/
theorem settled_iff (h : Serving env p s) (hl : p ∉ l) (hset : SettledBut (p :: l) s) :
    SettledBut l (s.serve env p).2 ↔ ServiceFits env l p s := by
  have hown : Settled p ((s.serve env p).2.memory p) (s.serve env p).2.log ↔ _ :=
    h.own.settled_iff rfl (h.sane p h.member).bounded h.excused_own
  have hothers := fun q (hq : q ∈ s.sockets) (hne : q ≠ p) ↦
    (h.other hq hne).settled_iff (h.excused_other hne)
  constructor
  · intro hafter
    refine ⟨hown.1 (hafter p (h.served.sockets ▸ h.member) hl), (opsFit_iff hset).2 ?_⟩
    intro q hq hdue
    obtain ⟨hne, hdue⟩ := not_or.1 (mt List.mem_cons.2 hdue)
    exact (hothers q hq hne).1 (hafter q (h.served.sockets ▸ hq) hdue)
  · intro hfit q hq hdue
    rw [h.served.sockets] at hq
    rcases eq_or_ne q p with rfl | hne
    · exact hown.2 hfit.own
    · refine (hothers q hq hne).2 ((opsFit_iff hset).1 hfit.others q hq ?_)
      exact mt List.mem_cons.1 (not_or.2 ⟨hne, hdue⟩)

theorem settled_of (h : Serving env p s) (hafter : SettledBut l (s.serve env p).2) :
    SettledBut (p :: l) s := by
  intro q hq hdue
  obtain ⟨hne, hdue⟩ := not_or.1 (mt List.mem_cons.2 hdue)
  exact (h.other hq hne).settled_of (h.excused_other hne) (hafter q (h.served.sockets ▸ hq) hdue)

end Serving

end Fits

section Round

variable {env : RoundEnv} {s : Server} {l : List Ptr}

def ServicesFit (env : RoundEnv) : List Ptr → Server → Prop
  | [], _ => True
  | p :: l, s => ServiceFits env l p s ∧ ServicesFit env l (s.serve env p).2

/-- The callbacks of a round only take bytes and queue replies, each service
fits, and so does the finished callback if it runs. -/
structure RoundFits (env : RoundEnv) (s : Server) : Prop where
  plain : RepliesOnly env
  services : 0 ≤ s.efd → ServicesFit env s.receiveSockets s
  behind : 0 ≤ s.efd → (s.receiveSockets.foldl (Server.receiveLoop env) (false, s)).1 = true →
    OpsFit [] env.finished (s.receiveSockets.foldl (Server.receiveLoop env) (false, s)).2

theorem receiveLoop_sane (henv : RepliesOnly env) (l : List Ptr) (hinv : Inv s)
    (hsane : s.Holds Sane) (hl : ∀ p ∈ l, p ∈ s.sockets) (b : Bool) :
    (l.foldl (Server.receiveLoop env) (b, s)).2.Holds Sane :=
  PerClient.receiveLoop (P := fun _ _ _ ↦ True)
    (fun _ p ht hp hh _ ↦ Serving.sane_serve ⟨ht, hp, henv.callback p, hh⟩) l hsane hinv hl
    (.of_forall (fun _ _ ↦ trivial) l s) b

theorem receiveLoop_settled (henv : RepliesOnly env) (hnodup : l.Nodup) (hinv : Inv s)
    (hsane : s.Holds Sane) (hl : ∀ p ∈ l, p ∈ s.sockets) (b : Bool) :
    SettledBut [] (l.foldl (Server.receiveLoop env) (b, s)).2 ↔
      SettledBut l s ∧ ServicesFit env l s := by
  induction l generalizing s b with
  | nil => exact (and_iff_left trivial).symm
  | cons p l ih =>
    obtain ⟨hnot, hnodup⟩ := List.nodup_cons.1 hnodup
    have hp := hl p (by simp)
    have hserving : Serving env p s := ⟨hinv, hp, henv.callback p, hsane⟩
    have hr := hinv.serveRound (.inl hp) env
    rw [List.foldl_cons, hinv.receiveLoop_eq (.inl hp),
      ih hnodup hr.inv hserving.sane_serve fun q hq ↦ hr.sockets ▸ hl q (by simp [hq])]
    constructor
    · rintro ⟨hafter, hfit⟩
      have hset := hserving.settled_of hafter
      exact ⟨hset, (hserving.settled_iff hnot hset).1 hafter, hfit⟩
    · rintro ⟨hset, hfit, hrest⟩
      exact ⟨(hserving.settled_iff hnot hset).2 hfit, hrest⟩

theorem runOps_excused (ops : List (ℕ × SocketOp)) (s : Server) (p : Ptr) :
    excused p (s.runOps ops).log = excused p s.log := by
  obtain ⟨new, hlog, hnew⟩ := (Quiet.runOps ops s).log
  rw [hlog, excused_passive p _ fun e he ↦ (hnew e he).passive]

theorem runOps_sane {ops : List (ℕ × SocketOp)} (hops : ∀ op ∈ ops, op.2.replies = true)
    (hinv : Inv s) (hsane : s.Holds Sane) : (s.runOps ops).Holds Sane := by
  have hq := Quiet.runOps ops s
  intro p hp
  refine (hsane p (hq.sockets ▸ hp)).queues (runOps_queues hops p) (runOps_excused ops s p) ?_
  rw [← (hinv.runOps ops).lists.marked_iff, hq.disconnectedSockets, hinv.lists.marked_iff]
  exact id

theorem runOps_settled {ops : List (ℕ × SocketOp)} (hops : ∀ op ∈ ops, op.2.replies = true)
    (hsane : s.Holds Sane) :
    SettledBut [] (s.runOps ops) ↔ SettledBut [] s ∧ OpsFit [] ops s := by
  have hsockets := (Quiet.runOps ops s).sockets
  have hscripted := fun q (hq : q ∈ s.sockets) ↦ runOps_scripted hops hq (hsane q hq).bounded
  constructor
  · intro hafter
    have hset : SettledBut [] s := fun q hq hdue ↦
      (hscripted q hq).settled_of (runOps_excused ops s q) (hafter q (hsockets ▸ hq) hdue)
    refine ⟨hset, (opsFit_iff hset).2 fun q hq hdue ↦ ?_⟩
    exact ((hscripted q hq).settled_iff (runOps_excused ops s q)).1 (hafter q (hsockets ▸ hq) hdue)
  · rintro ⟨hset, hfit⟩ q hq hdue
    rw [hsockets] at hq
    exact ((hscripted q hq).settled_iff (runOps_excused ops s q)).2
      ((opsFit_iff hset).1 hfit q hq hdue)

theorem sendLoop_settled (env : RoundEnv) (l : List Ptr) (hinv : Inv s)
    (hl : ∀ p ∈ l, s.known p) :
    SettledBut [] (l.foldl (Server.sendLoop env) s) ↔ SettledBut [] s := by
  induction l generalizing s with
  | nil => exact .rfl
  | cons p l ih =>
    have hp := hl p (by simp)
    have hrest : ∀ q ∈ l, s.known q := fun q hq ↦ hl q (by simp [hq])
    rw [List.foldl_cons, hinv.sendLoop_eq hp]
    by_cases hmem : p ∈ s.sockets
    · rw [if_pos hmem]
      exact ih hinv hrest
    · have hr := hinv.serveRound hp env
      have hs := serve_served env hinv.sound hp.holder
      obtain rfl := (hp.resolve_left hmem).1
      rw [if_neg hmem, ih hr.inv fun q hq ↦ hr.known (hrest q hq), SettledBut, SettledBut,
        hr.sockets]
      refine forall₂_congr fun q hq ↦ ?_
      have hne : q ≠ .listener := fun heq ↦ hmem (heq ▸ hq)
      have hmemory : (s.serve env .listener).2.memory q = s.memory q :=
        callSocket_listener hinv env hne
      rw [Settled, Settled, hmemory, hs.excused, decide_eq_false hne.symm, Bool.false_and,
        Bool.or_false]

theorem sendAndRecv_sane (henv : RepliesOnly env) (hinv : Inv s) (hsane : s.Holds Sane) :
    (s.sendAndRecv env).Holds Sane :=
  perClient_sane.sendAndRecv (P := fun _ _ _ ↦ True)
    (fun _ p ht hp hh _ ↦ Serving.sane_serve ⟨ht, hp, henv.callback p, hh⟩)
    (fun _ _ ht hh ↦ runOps_sane henv.finished ht hh) hsane hinv
    (.of_forall (fun _ _ ↦ trivial) s.receiveSockets s)

theorem sendAndRecv_settled (henv : RepliesOnly env) (hinv : Inv s) (hsane : s.Holds Sane)
    (hset : SettledBut [] s) (hefd : 0 ≤ s.efd) :
    SettledBut [] (s.sendAndRecv env) ↔ RoundFits env s := by
  have hclients : ∀ p ∈ s.receiveSockets, p ∈ s.sockets := fun p hp ↦ hinv.lists.receive_eq ▸ hp
  have hsane' := receiveLoop_sane henv s.receiveSockets hinv hsane hclients false
  have hloop := receiveLoop_settled henv (hinv.lists.receive_eq ▸ hinv.lists.sockets_nodup) hinv
    hsane hclients false
  have hdue : SettledBut s.receiveSockets s := fun q hq _ ↦ hset q hq List.not_mem_nil
  rw [and_iff_right hdue] at hloop
  obtain ⟨received, -, hround⟩ := hinv.receiveRound env s.receiveSockets
    (fun p hp ↦ .inl (hclients p hp)) false
  have hfits : RoundFits env s ↔ ServicesFit env s.receiveSockets s ∧
      ((s.receiveSockets.foldl (Server.receiveLoop env) (false, s)).1 = true →
        OpsFit [] env.finished (s.receiveSockets.foldl (Server.receiveLoop env) (false, s)).2) :=
    ⟨fun h ↦ ⟨h.services hefd, h.behind hefd⟩, fun h ↦ ⟨henv, fun _ ↦ h.1, fun _ ↦ h.2⟩⟩
  rw [hfits, ← hloop]
  unfold Server.sendAndRecv
  rw [if_neg (not_lt.2 hefd)]
  generalize s.receiveSockets.foldl (Server.receiveLoop env) (false, s) = r at hsane' hround
  obtain ⟨b, t⟩ := r
  dsimp only at hsane' hround ⊢
  cases b with
  | false =>
    rw [if_neg Bool.false_ne_true, sendLoop_settled env _ hround.inv hround.inv.lists.send_known]
    exact (and_iff_left fun h ↦ absurd h Bool.false_ne_true).symm
  | true =>
    have hemit : Inv (t.emit .recvFinished) := hround.inv.emit trivial
    have hfin := hemit.runOps env.finished
    have hsane'' : (t.emit .recvFinished).Holds Sane :=
      perClient_sane.emit hsane' fun _ _ ↦ trivial
    have hexcused : ∀ q, excused q (t.emit .recvFinished).log = excused q t.log :=
      fun q ↦ excused_concat q t.log .recvFinished
    rw [if_pos rfl, sendLoop_settled env _ hfin hfin.lists.send_known,
      runOps_settled henv.finished hsane'', imp_iff_right rfl]
    simp only [SettledBut, Settled, OpsFit, hexcused]
    rfl

end Round

section Run

variable {s : Server}

theorem settledBut_nil : SettledBut [] s ↔ s.Holds Settled :=
  ⟨fun h q hq ↦ h q hq List.not_mem_nil, fun h q hq _ ↦ h q hq⟩

structure Replying (s : Server) : Prop where
  inv : Inv s
  sane : s.Holds Sane
  settled : s.Holds Settled

theorem Replying.of_nil (hinv : Inv s) (h : s.sockets = []) : Replying s :=
  ⟨hinv, .of_nil h, .of_nil h⟩

theorem Replying.poll (h : Replying s) (env : PollEnv) : Replying (s.poll env) :=
  ⟨h.inv.poll env, perClient_sane.poll h.sane h.inv env,
    perClient_settled.poll h.settled h.inv env⟩

theorem Replying.sendAndRecv {env : RoundEnv} (h : Replying s) (hfit : RoundFits env s) :
    Replying (s.sendAndRecv env) := by
  refine ⟨h.inv.sendAndRecv env, sendAndRecv_sane hfit.plain h.inv h.sane, ?_⟩
  by_cases hefd : s.efd < 0
  · rw [Server.sendAndRecv, if_pos hefd]
    exact h.settled
  · exact settledBut_nil.1 ((sendAndRecv_settled hfit.plain h.inv h.sane
      (settledBut_nil.2 h.settled) (not_lt.1 hefd)).2 hfit)

def RunFits : List Op → Server → Prop
  | [], _ => True
  | .sendAndRecv env :: ops, s => RoundFits env s ∧ RunFits ops (s.sendAndRecv env)
  | op :: ops, s => RunFits ops (s.call op)

theorem Replying.calls (ops : List Op) (h : Replying s) (hfit : RunFits ops s) :
    Replying (ops.foldl Server.call s) := by
  induction ops generalizing s with
  | nil => exact h
  | cons op ops ih =>
    cases op with
    | listen env =>
      obtain ⟨hinv, hnil, -⟩ := h.inv.listen env
      exact ih (.of_nil hinv hnil) hfit
    | poll env => exact ih (h.poll env) hfit
    | sendAndRecv env => exact ih (h.sendAndRecv hfit.1) hfit.2
    | destroy => exact ih (.of_nil h.inv.destroy.inv h.inv.destroy.sockets) hfit

/-- The clients that a `poll()` deletes have nothing left to send, unless they
are excused. The rest of it deletes no client. -/
def KeepsReplies (env : PollEnv) (s : Server) : Prop :=
  ∃ gone, Deletes gone s (s.deleteDisconnected env) ∧
    (s.deleteDisconnected env).sockets <+: (s.poll env).sockets ∧
    ∀ p ∈ gone, (s.memory p).pending = [] ∨ excused p s.log = true

theorem pending_eq_nil {x : Socket} : x.pending = [] ↔ x.nextSendValidIndex = 0 := by
  rw [Socket.pending, ← List.length_eq_zero_iff, slice_length]

theorem Replying.keeps (h : Replying s) (hefd : 0 ≤ s.efd) (env : PollEnv) :
    KeepsReplies env s := by
  refine ⟨_, h.inv.deletes env, (h.inv.poll_open env (not_lt.2 hefd)).sockets, ?_⟩
  intro p hp
  obtain ⟨hmem, hmark⟩ := (h.inv.mem_disconnected p).1 hp
  have hsane := h.sane p hmem
  have hgiven := hsane.scheduled hmark
  rw [Bool.or_eq_true] at hgiven
  rw [pending_eq_nil]
  rcases hgiven with he | hr | hs
  · exact .inr he
  · exact h.settled p hmem hr
  · exact .inr (hsane.sent hs)

theorem Deletes.unique {gone gone' : List Ptr} {t : Server} (h : Deletes gone s t)
    (h' : Deletes gone' s t) : gone = gone' := by
  obtain ⟨new, hlog, hgone⟩ := h.log
  obtain ⟨new', hlog', hgone'⟩ := h'.log
  have heq := List.append_cancel_left (hlog.symm.trans hlog')
  rw [← hgone, ← hgone', (List.cons.inj heq).2]

theorem KeepsReplies.settled {env : PollEnv} (h : KeepsReplies env s) (hinv : Inv s)
    (hnoticed : ∀ p ∈ s.sockets, s.flagged p = true → p ∈ s.disconnectedSockets) :
    SettledBut [] s := by
  obtain ⟨gone, hgone, -, hkept⟩ := h
  intro p hp _ hr
  have hflag : s.flagged p = true := by rw [Server.flagged, hr, Bool.true_or]
  have hmem : p ∈ gone := by
    rw [hgone.unique (hinv.deletes env), hinv.mem_disconnected, ← hinv.lists.marked_iff]
    exact ⟨hp, hnoticed p hp hflag⟩
  rw [← pending_eq_nil]
  exact hkept p hmem

theorem Inv.sendAndRecv_noticed (h : Inv s) {env : RoundEnv} (henv : RepliesOnly env)
    (hefd : ¬ s.efd < 0) : ∀ p ∈ (s.sendAndRecv env).sockets,
      (s.sendAndRecv env).flagged p = true → p ∈ (s.sendAndRecv env).disconnectedSockets := by
  intro p hp hflag
  rw [(h.sendAndRecv_frame env).2] at hp
  rw [← h.leavesFlag_eq hefd henv hp] at hflag
  obtain ⟨a, -, rfl⟩ := (h.sound.owned_iff p).1 hp
  exact (h.sendAndRecv_disconnected env hefd a).2 (.inr hflag)

/-- In every run whose rounds fit, the next `poll()` keeps all replies; and
behind one more round with callbacks that only reply, it does so exactly when
the round fits. -/
theorem run_keeps_replies (memory : Ptr → Socket) (ops : List Op)
    (hfit : RunFits ops (.new memory)) (hefd : 0 ≤ (run memory ops).efd) (env : PollEnv) :
    KeepsReplies env (run memory ops) ∧ ∀ round, RepliesOnly round →
      (KeepsReplies env ((run memory ops).sendAndRecv round) ↔
        RoundFits round (run memory ops)) := by
  have h : Replying (run memory ops) :=
    (Replying.of_nil (Idle.new memory).inv rfl).calls ops hfit
  generalize run memory ops = s at h hefd
  refine ⟨h.keeps hefd env, fun round hround ↦ ⟨fun hkeeps ↦ ?_, fun hfits ↦ ?_⟩⟩
  · rw [← sendAndRecv_settled hround h.inv h.sane (settledBut_nil.2 h.settled) hefd]
    exact hkeeps.settled (h.inv.sendAndRecv round)
      (h.inv.sendAndRecv_noticed hround (not_lt.2 hefd))
  · exact (h.sendAndRecv hfits).keeps ((h.inv.sendAndRecv_frame round).1 ▸ hefd) env

def answering : RoundEnv :=
  ⟨fun _ ↦ ⟨.received [7] [], fun _ ↦ .error .eagain⟩,
    fun _ ↦ [(0, .consume (fun _ ↦ 0) 0), (0, .send (.bytes [8]))], []⟩

def draining : RoundEnv :=
  ⟨fun _ ↦ ⟨.received [] [], fun _ ↦ .sent 64⟩, fun _ ↦ [], []⟩

/-- The peer closes its sending side while the reply still waits for the kernel,
and the next `poll()` deletes the client together with the reply. -/
theorem run_drops_reply :
    ((run blank [listening, accepting [connection 5 0], .sendAndRecv answering,
      .sendAndRecv (sameIo (.received [] []))]).memory (.client 0)).pending = [8] ∧
    excused (.client 0) (run blank [listening, accepting [connection 5 0], .sendAndRecv answering,
      .sendAndRecv (sameIo (.received [] []))]).log = false ∧
    deletions (run blank [listening, accepting [connection 5 0], .sendAndRecv answering,
      .sendAndRecv (sameIo (.received [] [])), reporting [] []]).log = [.client 0] := by
  decide

def answered : List Op :=
  [listening, accepting [connection 5 0], .sendAndRecv answering, .sendAndRecv draining]

theorem answering_plain : RepliesOnly answering := by
  refine ⟨fun p ↦ ?_, by simp [answering]⟩
  show ∀ op ∈ [(0, SocketOp.consume (fun _ ↦ 0) 0), (0, .send (.bytes [8]))], op.2.replies = true
  decide

theorem draining_plain : RepliesOnly draining :=
  ⟨fun _ ↦ by simp [draining], by simp [draining]⟩

theorem answering_script (p : Ptr) (s : Server) : ∀ op ∈ answering.script p s, op.1 = 0 := by
  unfold RoundEnv.script
  split
  · simp [answering]
  · simp

theorem draining_script (p : Ptr) (s : Server) : draining.script p s = [] := by
  unfold RoundEnv.script
  split <;> rfl

theorem answered_fits : RunFits answered (.new blank) := by
  refine ⟨⟨answering_plain, fun _ ↦ ⟨⟨fun _ ↦ ?_, ?_⟩, trivial⟩, fun _ _ ↦ ?_⟩,
    ⟨draining_plain, fun _ ↦ ⟨⟨fun _ ↦ ?_, ?_⟩, trivial⟩, fun _ _ ↦ ?_⟩, trivial⟩
  · rw [CallFits, if_neg (by decide), if_neg (by decide)]
    exact fun h ↦ absurd h (by decide)
  · intro a data hmem _ hdue
    obtain rfl : a = 0 := answering_script _ _ _ hmem
    exact absurd List.mem_cons_self hdue
  · exact fun a data hmem ↦ absurd hmem (by simp [answering])
  · rw [CallFits, if_neg (by decide), if_neg (by decide)]
    intro _ hstalls
    rw [draining_script] at hstalls
    have htakes : ∀ p, (draining.io p).send 0 = .sent 64 := fun _ ↦ rfl
    have hlater := (stalls_sent (htakes _) (by decide)).1 hstalls
    have hnone : ((run blank [listening, accepting [connection 5 0],
        .sendAndRecv answering]).memory (.client 0)).nextSendValidIndex - 64 = 0 := by decide
    exact stalls_zero (hnone ▸ hlater)
  · rw [draining_script]
    exact fun a data hmem ↦ absurd hmem List.not_mem_nil
  · exact fun a data hmem ↦ absurd hmem (by simp [draining])

theorem run_keeps_replies_one :
    .client 0 ∈ (run blank answered).disconnectedSockets ∧
    KeepsReplies ⟨fun _ ↦ true, none, [], .eagain⟩ (run blank answered) :=
  ⟨by decide, (run_keeps_replies blank answered answered_fits (by decide) _).1⟩

end Run

end LowLatency.TCPServer
