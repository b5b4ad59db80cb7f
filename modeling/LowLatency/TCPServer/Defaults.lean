import LowLatency.TCPServer.Clients
import LowLatency.TCPServer.Service
import LowLatency.TCPSocket.Ranges

namespace LowLatency.TCPSocket

open Library.Words Library.Runs SocketUtils

def RecvCall.ended (call : RecvCall) : Bool :=
  match call.failed with
  | none => call.bytes.isEmpty
  | some e => !wouldBlock e

def Record.ended (r : Record) : Bool := r.recvmsg.any RecvCall.ended

def Record.delivered (r : Record) : ℕ := (r.recvmsg.map fun call ↦ call.bytes.length).getD 0

/-- The callback that the constructor of `TCPSocket` installs. -/
def defaultCallback (_ : Nanos) (s : Socket) : Socket := { s with nextRcvValidIndex := 0 }

section Receive

variable {s : Socket}

theorem receive_bytes (bytes : List Byte) (control : List ControlMessage) :
    (s.receive (.received bytes control)).1.bytes = bytes.take s.iovLen := by
  unfold Socket.receive
  dsimp only
  split <;> rfl

theorem receive_call (hroom : s.nextRcvValidIndex < tcpBufferSize) (kernel : RecvResult) :
    (s.receive kernel).1.ended = kernel.ends ∧
      (s.receive kernel).2.2.nextRcvValidIndex =
        s.nextRcvValidIndex + (s.receive kernel).1.bytes.length ∧
      ((s.receive kernel).2.1 = none → (s.receive kernel).1.bytes = []) := by
  have hiov : s.iovLen = tcpBufferSize - s.nextRcvValidIndex := sizeSub_eq hroom.le
  have hsize := tcpBufferSize_lt
  unfold Socket.receive
  cases kernel with
  | received bytes control =>
    have htake : (bytes.take s.iovLen).length ≤ s.iovLen := List.length_take_le _ _
    have hempty : (bytes.take s.iovLen).isEmpty = bytes.isEmpty := by
      rw [Bool.eq_iff_iff, List.isEmpty_iff, List.isEmpty_iff, List.take_eq_nil_iff]
      exact or_iff_right (by omega)
    dsimp only
    split
    next => exact ⟨hempty, sizeAdd_eq (by omega), nofun⟩
    next hzero =>
      have hnil : bytes.take s.iovLen = [] := List.length_eq_zero_iff.mp (by omega)
      exact ⟨hempty, by rw [hnil]; rfl, fun _ ↦ hnil⟩
  | error e =>
    dsimp only
    split <;> exact ⟨rfl, rfl, fun _ ↦ rfl⟩

def Socket.stuck (s : Socket) : Bool :=
  decide (0 ≤ s.fd) && decide (tcpBufferSize ≤ s.nextRcvValidIndex)

variable {W : Type*} (this : Place W) (io : Io) (cb : Nanos → W → W) (w : W)

theorem sendAndRecv_flag
    (hcb : ∀ t w, (this.get (cb t w)).recvDisconnected = (this.get w).recvDisconnected) :
    (this.get (sendAndRecv this io cb w).2).recvDisconnected =
        ((this.get w).recvDisconnected || (sendAndRecv this io cb w).1.ended ||
          (this.get w).stuck) ∧
      ((this.get w).stuck = true → (sendAndRecv this io cb w).1.ended = false) := by
  by_cases hfd : (this.get w).fd < 0
  · rw [sendAndRecv_closed this io cb w hfd]
    simp [Record.ended, Record.none, Socket.stuck, hfd]
  by_cases hfull : (this.get w).nextRcvValidIndex ≥ tcpBufferSize
  · rw [sendAndRecv_full this io cb w hfd hfull, this.get_set]
    simp [Record.ended, Record.none, Socket.stuck, hfull, not_lt.1 hfd]
  obtain ⟨w₁, hw₁, hcall⟩ := sendAndRecv_open this io cb w hfd hfull
  have hroom := Nat.lt_of_not_le hfull
  obtain ⟨hflag, -⟩ := receive_ends hroom io.recv
  have hmid : (this.get w₁).recvDisconnected =
      ((this.get w).receive io.recv).2.2.recvDisconnected := by
    rcases hw₁ with ⟨-, rfl⟩ | ⟨t, -, rfl⟩
    · rw [this.get_set]
    · rw [hcb, this.get_set]
  have hstuck : (this.get w).stuck = false := by simp [Socket.stuck, hroom]
  rw [hcall, hstuck, Bool.or_false, this.get_set, (flush_frame io.send _).flag, hmid, hflag]
  refine ⟨?_, nofun⟩
  simp [Record.ended, (receive_call hroom io.recv).1]

theorem sendAndRecv_fd (hcb : ∀ t w, this.get (cb t w) = this.get w) :
    (this.get (sendAndRecv this io cb w).2).fd = (this.get w).fd := by
  rcases sendAndRecv_split this io cb w (fun w w' ↦ (this.get w').fd = (this.get w).fd)
    (fun _ ↦ rfl) (fun h h' ↦ h'.trans h) (fun w s h ↦ by rw [this.get_set, h])
    with ⟨-, h⟩ | ⟨-, t, w₁, h, h'⟩
  · exact h
  · rw [h', hcb, h]

theorem sendAndRecv_index (hcb : ∀ t w, this.get (cb t w) = this.get w) :
    (this.get (sendAndRecv this io cb w).2).nextRcvValidIndex =
      (this.get w).nextRcvValidIndex + (sendAndRecv this io cb w).1.delivered := by
  by_cases hfd : (this.get w).fd < 0
  · rw [sendAndRecv_closed this io cb w hfd]
    rfl
  by_cases hfull : (this.get w).nextRcvValidIndex ≥ tcpBufferSize
  · rw [sendAndRecv_full this io cb w hfd hfull, this.get_set]
    rfl
  obtain ⟨w₁, hw₁, hcall⟩ := sendAndRecv_open this io cb w hfd hfull
  have hmid : this.get w₁ = ((this.get w).receive io.recv).2.2 := by
    rcases hw₁ with ⟨-, rfl⟩ | ⟨t, -, rfl⟩
    · rw [this.get_set]
    · rw [hcb, this.get_set]
  rw [hcall, this.get_set, (flush_frame io.send _).index, hmid,
    (receive_call (Nat.lt_of_not_le hfull) io.recv).2.1]
  rfl

end Receive

section Standalone

/-- A call can raise the receive flag only if its `recvmsg` ended the stream. -/
def FlagMeansEnd (op : Op) (s : Socket) : Prop :=
  s.recvDisconnected = false → (call .self defaultCallback op s).2.recvDisconnected = true →
    (call .self defaultCallback op s).1.ended = true

theorem sendAndRecv_default_index {s : Socket} (hs : s.nextRcvValidIndex = 0) (io : Io) :
    (sendAndRecv .self io defaultCallback s).2.nextRcvValidIndex = 0 := by
  by_cases hfd : s.fd < 0
  · rwa [sendAndRecv_closed .self io _ s hfd]
  have hfull : ¬ s.nextRcvValidIndex ≥ tcpBufferSize := by
    rw [hs]
    decide
  obtain ⟨w, hw, hcall⟩ := sendAndRecv_open .self io defaultCallback s hfd hfull
  rw [hcall]
  show ((Place.self.get w).flush io.send).2.nextRcvValidIndex = 0
  rw [(flush_frame io.send _).index]
  rcases hw with ⟨hnone, rfl⟩ | ⟨t, -, rfl⟩
  · obtain ⟨-, hindex, hbytes⟩ := receive_call (Nat.lt_of_not_le hfull) io.recv
    show (s.receive io.recv).2.2.nextRcvValidIndex = 0
    rw [hindex, hbytes hnone, hs]
    rfl
  · rfl

theorem call_default_index {s : Socket} (hs : s.nextRcvValidIndex = 0) (op : Op) :
    (call .self defaultCallback op s).2.nextRcvValidIndex = 0 := by
  cases op with
  | send data => exact (send_frame s data).1.index.trans hs
  | sendAndRecv io => exact sendAndRecv_default_index hs io
  | destroy => rfl
  | connect created => rfl

theorem call_flagMeansEnd {s : Socket} (hs : s.nextRcvValidIndex = 0) (op : Op) :
    FlagMeansEnd op s := by
  intro hbefore hafter
  cases op with
  | send data =>
    have hflag : (s.send data).2.recvDisconnected = s.recvDisconnected :=
      (send_frame s data).1.flag
    rw [hbefore] at hflag
    cases hflag.symm.trans hafter
  | sendAndRecv io =>
    have hrise := (sendAndRecv_flag .self io defaultCallback s fun _ _ ↦ rfl).1
    have hstuck : s.stuck = false := by
      simp only [Socket.stuck, hs]
      exact Bool.and_false _
    have hself : Place.self.get s = s := rfl
    rw [hself, hbefore, hstuck, Bool.false_or, Bool.or_false] at hrise
    exact hrise.symm.trans hafter
  | destroy => cases hafter
  | connect created => cases hafter

end Standalone

end LowLatency.TCPSocket

namespace LowLatency.TCPServer

open Library.Handles Library.Runs SocketUtils TCPSocket Function

/-- The callbacks that the constructor of `TCPServer` installs only log. -/
def RoundEnv.withDefaults (env : RoundEnv) : RoundEnv := ⟨env.io, fun _ ↦ [], []⟩

def Op.withDefaults : Op → Op
  | .sendAndRecv env => .sendAndRecv env.withDefaults
  | op => op

/-- The bytes that `recvmsg` has delivered to the client since its acceptance. -/
def delivered (p : Ptr) (log : List Event) : ℕ :=
  sinceAccepted p (fun n record ↦ n + record.delivered) 0 log

def Counted (p : Ptr) (x : Socket) (log : List Event) : Prop :=
  x.nextRcvValidIndex = delivered p log

theorem perClient_counted : PerClient Counted where
  joined p log sendBuffer rcvBuffer fd _ := by
    rw [Counted, delivered, sinceAccepted_accepted]
    rfl
  spared p x log e h he := by
    rw [Counted, delivered, sinceAccepted_spared _ _ _ _ he]
    exact h

section Service

/-- The service of a client can raise its receive flag only if its `recvmsg`
ended the stream. -/
def ServiceFlagMeansEnd (env : RoundEnv) (p : Ptr) (s : Server) : Prop :=
  (s.memory p).recvDisconnected = false →
    ((s.serve env p).2.memory p).recvDisconnected = true → (s.callSocket env p).1.ended = true

/-- An open client that is not given up has not been sent a buffer full of bytes
yet. -/
def ServiceRoom (_ : RoundEnv) (p : Ptr) (s : Server) : Prop :=
  0 ≤ (s.memory p).fd → (s.memory p).recvDisconnected = false →
    delivered p s.log < tcpBufferSize

variable {env : RoundEnv} {p : Ptr} {s : Server}

theorem recvCallback_default (hp : p ≠ .listener) (s : Server) :
    s.recvCallback env.withDefaults p = s.emit (.recvCallback p) := by
  unfold Server.recvCallback
  rw [if_neg hp]
  rfl

theorem serve_default_index (hinv : Inv s) (hp : p ∈ s.sockets) (env : RoundEnv) :
    ((s.serve env.withDefaults p).2.memory p).nextRcvValidIndex =
        (s.memory p).nextRcvValidIndex + (s.callSocket env.withDefaults p).1.delivered ∧
      ((s.serve env.withDefaults p).2.memory p).fd = (s.memory p).fd := by
  have hl : p ≠ .listener := fun heq ↦ hinv.listener_notMem (heq ▸ hp)
  have hcb (t : Nanos) (w : Server) : (Server.place p).get (w.recvCallback env.withDefaults p) =
      (Server.place p).get w := by
    rw [recvCallback_default hl]
    rfl
  have hindex := sendAndRecv_index (Server.place p) (env.withDefaults.io p)
    (fun _ ↦ Server.recvCallback env.withDefaults p) s hcb
  have hfd := sendAndRecv_fd (Server.place p) (env.withDefaults.io p)
    (fun _ ↦ Server.recvCallback env.withDefaults p) s hcb
  rw [← callSocket_eq hinv (Server.mem_holders hp)] at hindex hfd
  exact ⟨hindex, hfd⟩

theorem serve_default_flag (hinv : Inv s) (hp : p ∈ s.sockets) (env : RoundEnv) :
    ((s.serve env.withDefaults p).2.memory p).recvDisconnected =
        ((s.memory p).recvDisconnected || (s.callSocket env.withDefaults p).1.ended ||
          (s.memory p).stuck) ∧
      ((s.memory p).stuck = true → (s.callSocket env.withDefaults p).1.ended = false) := by
  have hl : p ≠ .listener := fun heq ↦ hinv.listener_notMem (heq ▸ hp)
  have hcb (t : Nanos) (w : Server) :
      ((Server.place p).get (w.recvCallback env.withDefaults p)).recvDisconnected =
        ((Server.place p).get w).recvDisconnected := by
    rw [recvCallback_default hl]
    rfl
  have hflag := sendAndRecv_flag (Server.place p) (env.withDefaults.io p)
    (fun _ ↦ Server.recvCallback env.withDefaults p) s hcb
  rw [← callSocket_eq hinv (Server.mem_holders hp)] at hflag
  exact hflag

theorem serviceFlagMeansEnd_iff (hinv : Inv s) (hp : p ∈ s.sockets) :
    ServiceFlagMeansEnd env.withDefaults p s ↔
      ((s.memory p).recvDisconnected = false → (s.memory p).stuck = false) := by
  obtain ⟨hflag, hstuck⟩ := serve_default_flag hinv hp env
  rw [ServiceFlagMeansEnd, hflag]
  apply imp_congr_right
  intro hbefore
  rw [hbefore, Bool.false_or]
  cases hk : (s.memory p).stuck with
  | false => simp
  | true => simp [hstuck hk]

theorem serve_default_holds (hinv : Inv s) (hp : p ∈ s.sockets) (h : s.Holds Counted)
    (env : RoundEnv) : (s.serve env.withDefaults p).2.Holds Counted := by
  have hs := serve_served env.withDefaults hinv.sound (Server.mem_holders hp)
  have hl : p ≠ .listener := fun heq ↦ hinv.listener_notMem (heq ▸ hp)
  intro q hq
  rw [hs.sockets] at hq
  rcases eq_or_ne q p with rfl | hqp
  · obtain ⟨new, hlog, hnew⟩ := hs.spares
    have hmid := perClient_counted.append (h q hq) (hnew q)
    rw [hlog, Counted, delivered, sinceAccepted_served, (serve_default_index hinv hp env).1, hmid]
    rfl
  · have hmem : (s.serve env.withDefaults p).2.memory q = s.memory q :=
      callSocket_elsewhere hinv (Server.mem_holders hp) hqp fun t ↦ by
        rw [recvCallback_default hl]
        rfl
    rw [hmem]
    exact perClient_counted.served_elsewhere hs hqp (h q hq)

end Service

section Run

variable {s : Server}

theorem service_iff {env : RoundEnv} {p : Ptr} (hinv : Inv s) (hp : p ∈ s.sockets)
    (h : s.Holds Counted) :
    ServiceFlagMeansEnd env.withDefaults p s ↔ ServiceRoom env.withDefaults p s := by
  rw [serviceFlagMeansEnd_iff hinv hp, ServiceRoom, ← h p hp]
  by_cases hfd : 0 ≤ (s.memory p).fd
  · simp [Socket.stuck, hfd]
  · simp [Socket.stuck, hfd]

theorem eachService_iff (env : RoundEnv) (l : List Ptr) (hinv : Inv s)
    (hl : ∀ p ∈ l, p ∈ s.sockets) (h : s.Holds Counted) :
    EachService ServiceFlagMeansEnd env.withDefaults l s ↔
      EachService ServiceRoom env.withDefaults l s := by
  induction l generalizing s with
  | nil => exact Iff.rfl
  | cons p l ih =>
    have hp := hl p (by simp)
    have hr := hinv.serveRound (.inl hp) env.withDefaults
    refine and_congr (service_iff hinv hp h) (ih hr.inv ?_ (serve_default_holds hinv hp h env))
    intro q hq
    rw [hr.sockets]
    exact hl q (by simp [hq])

theorem everyService_iff (ops : List Op) (hinv : Inv s) (h : s.Holds Counted) :
    EveryService ServiceFlagMeansEnd (ops.map Op.withDefaults) s ↔
      EveryService ServiceRoom (ops.map Op.withDefaults) s := by
  induction ops generalizing s with
  | nil => exact Iff.rfl
  | cons op ops ih =>
    cases op with
    | listen env =>
      obtain ⟨hl, hnil, -⟩ := hinv.listen env
      exact ih hl (.of_nil hnil)
    | poll env => exact ih (hinv.poll env) (perClient_counted.poll h hinv env)
    | sendAndRecv env =>
      have hclients : ∀ p ∈ s.receiveSockets, p ∈ s.sockets := fun p hp ↦
        hinv.lists.receive_eq ▸ hp
      have hnext : (s.sendAndRecv env.withDefaults).Holds Counted :=
        perClient_counted.sendAndRecv (P := fun _ _ _ ↦ True)
          (fun t p ht hp hh _ ↦ serve_default_holds ht hp hh env) (fun _ _ _ hh ↦ hh) h hinv
          (.of_forall (fun _ _ ↦ trivial) _ _)
      exact and_congr (imp_congr_right fun _ ↦ eachService_iff env _ hinv hclients h)
        (ih (hinv.sendAndRecv env.withDefaults) hnext)
    | destroy => exact ih hinv.destroy.inv (.of_nil hinv.destroy.sockets)

/-- The default callback of a stand-alone socket never lets its buffer fill up.
The one that the server gives to its clients does: their services are healthy
exactly as long as no client is served after a buffer full of bytes. -/
theorem default_callbacks_iff (sendBuffer rcvBuffer : ℕ → Library.Words.Byte)
    (calls : List TCPSocket.Op) (op : TCPSocket.Op) (memory : Ptr → Socket) (ops : List Op) :
    FlagMeansEnd op (feed (call .self defaultCallback) calls
      (Socket.new sendBuffer rcvBuffer)).2 ∧
    (EveryService ServiceFlagMeansEnd (ops.map Op.withDefaults) (.new memory) ↔
      EveryService ServiceRoom (ops.map Op.withDefaults) (.new memory)) := by
  refine ⟨call_flagMeansEnd ?_ op, everyService_iff ops (Idle.new memory).inv (.of_nil rfl)⟩
  exact feed_invariant (fun s : Socket ↦ s.nextRcvValidIndex = 0)
    (fun op s hs ↦ call_default_index hs op) rfl calls

end Run

section Overflow

variable {env : RoundEnv} {p : Ptr} {s : Server}

theorem serve_fills (hinv : Inv s) (hp : p ∈ s.sockets) (h : s.Holds Counted)
    (hfd : 0 ≤ (s.memory p).fd) (hempty : (s.memory p).nextRcvValidIndex = 0)
    (hflag : (s.memory p).recvDisconnected = false) {bytes : List Library.Words.Byte}
    (hrecv : (env.io p).recv = .received bytes []) (hlen : bytes.length = tcpBufferSize)
    (env' : RoundEnv) : ¬ ServiceRoom env' p (s.serve env.withDefaults p).2 := by
  have hholds := serve_default_holds hinv hp h env
  have hsockets := (hinv.serveRound (.inl hp) env.withDefaults).sockets
  obtain ⟨hindex, hfd'⟩ := serve_default_index hinv hp env
  have hrise := (serve_default_flag hinv hp env).1
  have hopen : ¬ (s.memory p).fd < 0 := not_lt.2 hfd
  have hroom : ¬ (s.memory p).nextRcvValidIndex ≥ tcpBufferSize := by
    rw [hempty]
    decide
  obtain ⟨w, hw, hcall⟩ := sendAndRecv_open (Server.place p) (env.withDefaults.io p)
    (fun _ ↦ Server.recvCallback env.withDefaults p) s hopen hroom
  rw [← callSocket_eq hinv (Server.mem_holders hp)] at hcall
  have hrecord : (s.callSocket env.withDefaults p).1.recvmsg =
      some ((s.memory p).receive (.received bytes [])).1 := by
    rw [hcall, ← hrecv]
    rfl
  have hdelivered : (s.callSocket env.withDefaults p).1.delivered = tcpBufferSize := by
    rw [Record.delivered, hrecord, Option.map_some, Option.getD_some, receive_bytes,
      List.length_take, hlen, Socket.iovLen, hempty]
    decide
  have hended : (s.callSocket env.withDefaults p).1.ended = false := by
    rw [Record.ended, hrecord, Option.any_some, (receive_call (Nat.lt_of_not_le hroom) _).1,
      RecvResult.ends, List.isEmpty_eq_false_iff]
    intro hnil
    rw [hnil] at hlen
    cases hlen
  have hstuck : (s.memory p).stuck = false := by simp [Socket.stuck, hroom]
  rw [hflag, hended, hstuck] at hrise
  intro hr
  have hlt := hr (hfd'.symm ▸ hfd) hrise
  have hcount : _ = delivered p _ := hholds p (hsockets ▸ hp)
  rw [← hcount, hindex, hempty, hdelivered] at hlt
  omega

theorem sendAndRecv_single (hinv : Inv s) (hefd : ¬ s.efd < 0) (hp : s.sockets = [p])
    (hsend : s.sendSockets = []) (env : RoundEnv) :
    s.sendAndRecv env.withDefaults = (s.serve env.withDefaults p).2 ∨
      s.sendAndRecv env.withDefaults = (s.serve env.withDefaults p).2.emit .recvFinished := by
  have hr := hinv.serveRound (.inl (hp ▸ List.mem_singleton_self p)) env.withDefaults
  have hnull := hinv.ne_null (p := p) (.inl (hp ▸ List.mem_singleton_self p))
  have hnil : (s.serve env.withDefaults p).2.sendSockets = [] := hr.sendSockets.trans hsend
  unfold Server.sendAndRecv
  rw [if_neg hefd, hinv.lists.receive_eq, hp, List.foldl_cons, List.foldl_nil, Server.receiveLoop,
    if_neg hnull]
  dsimp only
  generalize s.serve env.withDefaults p = r at hnil
  obtain ⟨received, t⟩ := r
  dsimp only at hnil ⊢
  cases received with
  | false =>
    left
    show t.sendSockets.foldl _ t = t
    rw [hnil]
    rfl
  | true =>
    right
    show t.sendSockets.foldl _ (t.emit .recvFinished) = t.emit .recvFinished
    rw [hnil]
    rfl

theorem serviceRoom_emit (env' : RoundEnv) :
    ServiceRoom env' p (s.emit .recvFinished) ↔ ServiceRoom env' p s := by
  have hsame : delivered p (s.emit .recvFinished).log = delivered p s.log :=
    sinceAccepted_spared p _ _ s.log (e := .recvFinished) trivial
  rw [ServiceRoom, hsame]
  rfl

theorem overflow_round (hinv : Inv s) (hefd : 0 ≤ s.efd) (hp : s.sockets = [p])
    (hsend : s.sendSockets = []) (h : s.Holds Counted) (hfd : 0 ≤ (s.memory p).fd)
    (hempty : (s.memory p).nextRcvValidIndex = 0)
    (hflag : (s.memory p).recvDisconnected = false) {bytes : List Library.Words.Byte}
    (hrecv : (env.io p).recv = .received bytes []) (hlen : bytes.length = tcpBufferSize)
    (env' : RoundEnv) :
    ¬ EveryService ServiceRoom [.sendAndRecv env.withDefaults, .sendAndRecv env'] s := by
  have hmem : p ∈ s.sockets := hp ▸ List.mem_singleton_self p
  have hfull := serve_fills hinv hmem h hfd hempty hflag hrecv hlen env'
  have hs := (hinv.serve (.inl hmem) env.withDefaults).2
  have hround := hinv.serveRound (.inl hmem) env.withDefaults
  have hlist := hround.inv.lists.receive_eq.trans (hround.sockets.trans hp)
  have hefd' : 0 ≤ (s.serve env.withDefaults p).2.efd := hs.efd ▸ hefd
  rintro ⟨-, hroom, -⟩
  rcases sendAndRecv_single hinv (not_lt.2 hefd) hp hsend env with hnext | hnext
  · rw [hnext, hlist] at hroom
    exact hfull (hroom hefd').1
  · rw [hnext] at hroom
    have hlist' : ((s.serve env.withDefaults p).2.emit .recvFinished).receiveSockets = [p] := hlist
    rw [hlist'] at hroom
    exact hfull ((serviceRoom_emit env').1 (hroom hefd').1)

/-- With every callback left in place, a client that was sent 64 KiB is given up
in the next round, though its `recvmsg` was never told that the stream ended. -/
theorem default_callback_gives_up : ¬ EveryService ServiceFlagMeansEnd
    ([listening, accepting [connection 5 0],
      .sendAndRecv (sameIo (.received (List.replicate tcpBufferSize 0) [])),
      .sendAndRecv (sameIo (.error .eagain))].map Op.withDefaults) (.new blank) := by
  rw [everyService_iff _ (Idle.new blank).inv (.of_nil rfl)]
  obtain ⟨hlisten, hnil, -⟩ := (Idle.new blank).inv.listen ⟨some 3, some 4, true⟩
  have hinv : Inv (run blank [listening, accepting [connection 5 0]]) := run_inv blank _
  have hrun : run blank [listening, accepting [connection 5 0]] =
      ((Server.new blank).listen ⟨some 3, some 4, true⟩).2.poll ⟨fun _ ↦ true,
        some [⟨.listener, false, false, true, false⟩], [connection 5 0], .eagain⟩ := rfl
  have hholds : (run blank [listening, accepting [connection 5 0]]).Holds Counted := by
    rw [hrun]
    exact perClient_counted.poll (.of_nil hnil) hlisten _
  exact overflow_round (p := .client 0) hinv (by decide) (by decide) (by decide) hholds
    (by decide) (by decide) (by decide) rfl List.length_replicate _

end Overflow

end LowLatency.TCPServer
