import LowLatency.TCPServer.Replies

namespace LowLatency.TCPServer

open Library.Handles Library.Words SocketUtils TCPSocket Function

/-- How a callback leaves the client it was given: as open as it was, closed with
an empty send buffer, or closed and with bytes queued after that. -/
inductive Aftermath
  | kept
  | closed
  | refilled
  deriving DecidableEq

def Aftermath.step (m : Aftermath) : SocketOp → Aftermath
  | .destroy => .closed
  | .send data => if m = .closed ∧ queueable data then .refilled else m
  | _ => m

def aftermath (ops : List (ℕ × SocketOp)) : Aftermath :=
  ops.foldl (fun m op ↦ m.step op.2) .kept

/-- A receive callback consumes, sends and closes, and only on the socket it was
given. The callback at the end of a round closes nothing. -/
structure OwnCallbacks (env : RoundEnv) : Prop where
  own : ∀ a, ∀ op ∈ env.callback (.client a), op.1 = a
  plain : ∀ a, ∀ op ∈ env.callback (.client a), ∀ created, op.2 ≠ .connect created
  finished : ∀ op ∈ env.finished, op.2.replies = true

def CallbackRuns (env : RoundEnv) (p : Ptr) (s : Server) : Prop :=
  0 ≤ (s.memory p).fd ∧ (s.memory p).nextRcvValidIndex < tcpBufferSize ∧
    (env.io p).recv.delivers = true

def ebadf : Errno := .other 9

/-- The kernel refuses a `::send` behind a callback that has closed its socket. -/
def RefusesClosed (env : RoundEnv) (p : Ptr) (s : Server) : Prop :=
  CallbackRuns env p s → aftermath (env.callback p) ≠ .kept → (env.io p).send 0 = .error ebadf

/-- A callback that closes its client queues something after that, unless the
client is due for deletion already, for whatever reason. -/
def LeavesTrace (env : RoundEnv) (p : Ptr) (s : Server) : Prop :=
  CallbackRuns env p s → aftermath (env.callback p) = .closed → p ∈ s.disconnectedSockets

/-- A client without a descriptor is due for deletion. -/
def Server.tidyAt (s : Server) (p : Ptr) : Prop :=
  (s.memory p).fd < 0 → p ∈ s.disconnectedSockets

def Server.Tidy (s : Server) : Prop := ∀ p ∈ s.sockets, s.tidyAt p

def Server.AllOpen (s : Server) : Prop := ∀ p ∈ s.sockets, 0 ≤ (s.memory p).fd

/-- The state behind every `sendAndRecv()` of a run. -/
def EveryRound (P : Server → Prop) : List Op → Server → Prop
  | [], _ => True
  | .sendAndRecv env :: ops, s => P (s.sendAndRecv env) ∧ EveryRound P ops (s.sendAndRecv env)
  | op :: ops, s => EveryRound P ops (s.call op)

section Socket

variable {x : Socket} {m : Aftermath}

def Aftermath.Fits : Aftermath → Socket → Prop
  | .kept, x => 0 ≤ x.fd
  | .closed, x => x.fd < 0 ∧ x.nextSendValidIndex = 0 ∧ x.sendDisconnected = false ∧
      x.recvDisconnected = false
  | .refilled, x => x.fd < 0 ∧ 0 < x.nextSendValidIndex ∧ x.nextSendValidIndex ≤ tcpBufferSize

theorem send_empty (hx : x.nextSendValidIndex = 0) (data : Data) :
    (x.send data).2.nextSendValidIndex =
      if queueable data then data.contents.length else 0 := by
  rw [send_index (hx.trans_le (Nat.zero_le _)), hx, Nat.zero_add]
  by_cases hq : queueable data = true
  · rw [if_pos hq, if_pos (queueable_iff.1 hq).2]
  · rw [if_neg hq]
    rw [queueable_iff] at hq
    split
    · omega
    · rfl

theorem Aftermath.Fits.send (h : m.Fits x) (data : Data) :
    (m.step (.send data)).Fits (x.send data).2 := by
  obtain ⟨hframe, hflag⟩ := send_frame x data
  cases m with
  | kept =>
    have hfd : 0 ≤ x.fd := h
    rw [← hframe.fd] at hfd
    exact hfd
  | closed =>
    obtain ⟨hfd, hempty, hsend, hrecv⟩ := h
    have hindex := send_empty hempty data
    rw [← hframe.fd] at hfd
    cases hq : queueable data with
    | false =>
      rw [hq, if_neg Bool.false_ne_true] at hindex
      simp only [step, hq, Bool.false_eq_true, and_false, if_false]
      exact ⟨hfd, hindex, hflag.trans hsend, hframe.flag.trans hrecv⟩
    | true =>
      rw [hq, if_pos rfl] at hindex
      obtain ⟨hpos, hle⟩ := queueable_iff.mp hq
      simp only [step, hq, and_self, if_true]
      exact ⟨hfd, hindex ▸ hpos, hindex ▸ hle⟩
  | refilled =>
    obtain ⟨hfd, hpos, hle⟩ := h
    rw [← hframe.fd] at hfd
    rcases send_cases hle data with ⟨-, -, hindex, hle'⟩ | ⟨-, hsame⟩
    · exact ⟨hfd, by omega, hle'⟩
    · rw [hsame]
      exact ⟨hsame ▸ hfd, hpos, hle⟩

theorem Aftermath.Fits.destroy (x : Socket) : Aftermath.closed.Fits x.destroy := by
  refine ⟨?_, rfl, rfl, rfl⟩
  unfold Socket.destroy
  dsimp only
  split <;> omega

theorem flush_empty (hx : x.nextSendValidIndex = 0) (kernel : ℕ → SendResult) :
    (x.flush kernel).2 = x := by
  unfold Socket.flush
  rw [hx]
  simp [flushLoop]

theorem flush_refused (hx : 0 < x.nextSendValidIndex) {kernel : ℕ → SendResult}
    (hk : kernel 0 = .error ebadf) : (x.flush kernel).2.sendDisconnected = true := by
  obtain ⟨n, hn⟩ := Nat.exists_eq_add_one_of_ne_zero hx.ne'
  unfold Socket.flush
  rw [hn]
  simp [flushLoop, hk, ebadf, wouldBlock]

end Socket

section Callback

variable {s : Server} {a : ℕ}

theorem runOp_fits {op : SocketOp} (ha : .client a ∈ s.sockets)
    (hop : ∀ created, op ≠ .connect created) {m : Aftermath}
    (h : m.Fits (s.memory (.client a))) :
    (m.step op).Fits ((s.runOp (a, op)).memory (.client a)) := by
  cases op with
  | consume rcvBuffer index =>
    simp only [Server.runOp, if_pos ha, Server.place, Server.touch, update_self]
    cases m <;> exact h
  | send data =>
    simp only [Server.runOp, if_pos ha, Server.place, Server.touch, update_self]
    exact h.send data
  | destroy =>
    simp only [Server.runOp, if_pos ha, Server.destroySocket_memory, update_self]
    exact .destroy _
  | connect created => exact absurd rfl (hop created)

theorem runOps_fits {ops : List (ℕ × SocketOp)} (ha : .client a ∈ s.sockets)
    (hown : ∀ op ∈ ops, op.1 = a) (hplain : ∀ op ∈ ops, ∀ created, op.2 ≠ .connect created)
    {m : Aftermath} (h : m.Fits (s.memory (.client a))) :
    (ops.foldl (fun m op ↦ m.step op.2) m).Fits ((s.runOps ops).memory (.client a)) := by
  induction ops generalizing s m with
  | nil => exact h
  | cons op ops ih =>
    obtain ⟨b, op⟩ := op
    obtain rfl : b = a := hown _ List.mem_cons_self
    have hstep := runOp_fits ha (hplain _ List.mem_cons_self) h
    rw [← (Quiet.runOp s (b, op)).sockets] at ha
    exact ih ha (fun op hop ↦ hown op (List.mem_cons_of_mem _ hop))
      (fun op hop ↦ hplain op (List.mem_cons_of_mem _ hop)) hstep

theorem runOp_elsewhere {op : SocketOp} (hop : ∀ created, op ≠ .connect created) {q : Ptr}
    (hq : q ≠ .client a) : (s.runOp (a, op)).memory q = s.memory q := by
  by_cases ha : Ptr.client a ∈ s.sockets
  · cases op with
    | consume | send =>
      simp only [Server.runOp, if_pos ha, Server.place, Server.touch, update_of_ne hq]
    | destroy => simp only [Server.runOp, if_pos ha, Server.destroySocket_memory, update_of_ne hq]
    | connect created => exact absurd rfl (hop created)
  · rw [Server.runOp, if_neg ha]

theorem runOps_elsewhere {ops : List (ℕ × SocketOp)} (hown : ∀ op ∈ ops, op.1 = a)
    (hplain : ∀ op ∈ ops, ∀ created, op.2 ≠ .connect created) {q : Ptr} (hq : q ≠ .client a) :
    (s.runOps ops).memory q = s.memory q := by
  induction ops generalizing s with
  | nil => rfl
  | cons op ops ih =>
    obtain ⟨b, op⟩ := op
    obtain rfl : b = a := hown _ List.mem_cons_self
    refine (ih (fun op hop ↦ hown op (List.mem_cons_of_mem _ hop))
      fun op hop ↦ hplain op (List.mem_cons_of_mem _ hop)).trans ?_
    exact runOp_elsewhere (hplain _ List.mem_cons_self) hq

variable {env : RoundEnv}

theorem OwnCallbacks.fits (henv : OwnCallbacks env) (ha : .client a ∈ s.sockets)
    (hfd : 0 ≤ (s.memory (.client a)).fd) : (aftermath (env.callback (.client a))).Fits
      ((s.recvCallback env (.client a)).memory (.client a)) :=
  runOps_fits (s := s.emit (.recvCallback (.client a))) ha (henv.own a) (henv.plain a) hfd

theorem OwnCallbacks.elsewhere (henv : OwnCallbacks env) {q : Ptr} (hq : q ≠ .client a)
    (s : Server) : (s.recvCallback env (.client a)).memory q = s.memory q :=
  runOps_elsewhere (s := s.emit (.recvCallback (.client a))) (henv.own a) (henv.plain a) hq

end Callback

section Service

variable {env : RoundEnv} {s : Server} {a : ℕ} {p q : Ptr}

theorem callSocket_aftermath (hinv : Inv s) (henv : OwnCallbacks env)
    (ha : .client a ∈ s.sockets) (hruns : CallbackRuns env (.client a) s) :
    ∃ y, (aftermath (env.callback (.client a))).Fits y ∧
      (s.callSocket env (.client a)).2.memory (.client a) =
        (y.flush (env.io (.client a)).send).2 := by
  obtain ⟨hfd, hroom, hdelivers⟩ := hruns
  obtain ⟨w, hw, hcall⟩ := sendAndRecv_open (Server.place (.client a)) (env.io (.client a))
    (fun _ ↦ Server.recvCallback env (.client a)) s (not_lt.2 hfd) (Nat.not_le.2 hroom)
  rw [callSocket_eq hinv (Server.mem_holders ha), hcall]
  refine ⟨w.memory (.client a), ?_, Server.place_set_memory ..⟩
  rcases hw with ⟨htime, -⟩ | ⟨t, -, rfl⟩
  · -- Bytes were delivered, so the callback cannot be skipped.
    have hsome := (receive_ends hroom (env.io (.client a)).recv).2
    change ((s.memory (.client a)).receive (env.io (.client a)).recv).2.1 = none at htime
    rw [htime, hdelivers] at hsome
    cases hsome
  · refine henv.fits ha ?_
    rw [Server.place_set_memory, (receive_frame _ _).1]
    exact hfd

theorem callSocket_idle (hinv : Inv s) (hp : p ∈ s.sockets) (hruns : ¬ CallbackRuns env p s) :
    ((s.callSocket env p).2.memory p).fd = (s.memory p).fd := by
  rw [callSocket_eq hinv (Server.mem_holders hp)]
  by_cases hfd : (s.memory p).fd < 0
  · rw [sendAndRecv_closed (Server.place p) _ _ s hfd]
  by_cases hfull : (s.memory p).nextRcvValidIndex ≥ tcpBufferSize
  · rw [sendAndRecv_full (Server.place p) _ _ s hfd hfull, Server.place_set_memory]
    rfl
  have hroom := Nat.lt_of_not_le hfull
  obtain ⟨w, hw, hcall⟩ := sendAndRecv_open (Server.place p) (env.io p)
    (fun _ ↦ Server.recvCallback env p) s hfd hfull
  rcases hw with ⟨-, rfl⟩ | ⟨t, htime, -⟩
  · rw [hcall, Server.place_set_memory, (flush_frame _ _).fd, (Server.place p).get_set]
    exact (receive_frame _ _).1
  · have hsome := (receive_ends hroom (env.io p).recv).2
    change ((s.memory p).receive (env.io p).recv).2.1 = some t at htime
    rw [htime] at hsome
    exact absurd ⟨not_lt.1 hfd, hroom, hsome.symm⟩ hruns

theorem serve_tidyAt_iff (hinv : Inv s) (henv : OwnCallbacks env) (hp : p ∈ s.sockets)
    (hrefuses : RefusesClosed env p s) (htidy : s.tidyAt p) :
    (s.serve env p).2.tidyAt p ↔ LeavesTrace env p s := by
  obtain ⟨a, -, rfl⟩ := (hinv.sound.owned_iff p).1 hp
  have hlisted := serve_listed (q := .client a) hinv (Server.mem_holders hp) env
  have hmem : (s.serve env (.client a)).2.memory = (s.callSocket env (.client a)).2.memory := rfl
  unfold Server.tidyAt LeavesTrace
  rw [hlisted, hmem]
  by_cases hruns : CallbackRuns env (.client a) s
  · obtain ⟨y, hy, hsocket⟩ := callSocket_aftermath hinv henv hp hruns
    have hflush := flush_frame (env.io (.client a)).send y
    rw [Server.flagged, hsocket, hflush.fd, hflush.flag]
    cases hafter : aftermath (env.callback (.client a)) with
    | kept =>
      rw [hafter] at hy
      refine iff_of_true (fun hneg ↦ absurd hneg (not_lt.2 hy)) ?_
      intro _ hclosed
      cases hclosed
    | closed =>
      rw [hafter] at hy
      obtain ⟨hfd, hempty, hsend, hrecv⟩ := hy
      rw [flush_empty hempty, hsend, hrecv]
      simp [hfd, hruns]
    | refilled =>
      rw [hafter] at hy
      have hfails := hrefuses hruns (by simp [hafter])
      rw [flush_refused hy.2.1 hfails]
      simp
  · rw [callSocket_idle hinv hp hruns]
    exact iff_of_true (fun hneg ↦ .inl (htidy hneg)) fun h ↦ absurd h hruns

structure Spared (p : Ptr) (s t : Server) : Prop where
  fd : (t.memory p).fd = (s.memory p).fd
  listed : p ∈ t.disconnectedSockets ↔ p ∈ s.disconnectedSockets

theorem Spared.refl (p : Ptr) (s : Server) : Spared p s s := ⟨rfl, Iff.rfl⟩

theorem Spared.trans {t u : Server} (h : Spared p s t) (h' : Spared p t u) : Spared p s u :=
  ⟨h'.fd.trans h.fd, h'.listed.trans h.listed⟩

theorem Spared.tidyAt_iff {t : Server} (h : Spared p s t) : t.tidyAt p ↔ s.tidyAt p := by
  rw [Server.tidyAt, Server.tidyAt, h.fd, h.listed]

theorem serve_spared (hinv : Inv s) (hp : some p ∈ holders s.members) (hq : q ≠ p)
    (hmem : (s.callSocket env p).2.memory q = s.memory q) : Spared q s (s.serve env p).2 := by
  refine ⟨congrArg Socket.fd hmem, ?_⟩
  rw [serve_listed hinv hp]
  simp [hq]

theorem serve_client_spared (hinv : Inv s) (henv : OwnCallbacks env) (hp : p ∈ s.sockets)
    (hq : q ≠ p) : Spared q s (s.serve env p).2 := by
  obtain ⟨a, -, rfl⟩ := (hinv.sound.owned_iff p).1 hp
  apply serve_spared hinv (Server.mem_holders hp) hq
  exact callSocket_elsewhere hinv (Server.mem_holders hp) hq fun s ↦ henv.elsewhere hq s

theorem serve_listener_spared (hinv : Inv s) (hq : q ≠ .listener) :
    Spared q s (s.serve env .listener).2 :=
  serve_spared hinv (some_mem_holders.2 (.inl rfl)) hq (callSocket_listener hinv env hq)

end Service

section Round

variable {env : RoundEnv} {s t : Server} {p : Ptr}

theorem Spared.tidy_iff (hsockets : t.sockets = s.sockets) (h : ∀ p ∈ s.sockets, Spared p s t) :
    t.Tidy ↔ s.Tidy := by
  unfold Server.Tidy
  rw [hsockets]
  exact forall₂_congr fun p hp ↦ (h p hp).tidyAt_iff

theorem receiveLoop_spared (henv : OwnCallbacks env) (l : List Ptr) (hinv : Inv s)
    (hl : ∀ p ∈ l, p ∈ s.sockets) (hp : p ∉ l) (b : Bool) :
    Spared p s (l.foldl (Server.receiveLoop env) (b, s)).2 := by
  induction l generalizing s b with
  | nil => exact .refl p s
  | cons q l ih =>
    have hq := hl q (by simp)
    have hr := hinv.serveRound (.inl hq) env
    rw [List.mem_cons, not_or] at hp
    rw [List.foldl_cons, hinv.receiveLoop_eq (.inl hq)]
    refine (serve_client_spared hinv henv hq hp.1).trans (ih hr.inv ?_ hp.2 _)
    intro r hr'
    rw [hr.sockets]
    exact hl r (by simp [hr'])

theorem receiveLoop_tidy_iff (henv : OwnCallbacks env) (l : List Ptr) (hinv : Inv s)
    (hl : ∀ p ∈ l, p ∈ s.sockets) (hnodup : l.Nodup) (hrefuses : EachService RefusesClosed env l s)
    (htidy : s.Tidy) (b : Bool) :
    (l.foldl (Server.receiveLoop env) (b, s)).2.Tidy ↔ EachService LeavesTrace env l s := by
  induction l generalizing s b with
  | nil => exact iff_of_true htidy trivial
  | cons p l ih =>
    have hp := hl p (by simp)
    obtain ⟨hnot, hnodup⟩ := List.nodup_cons.1 hnodup
    have hr := hinv.serveRound (.inl hp) env
    have hown := serve_tidyAt_iff hinv henv hp hrefuses.1 (htidy p hp)
    have hrest : ∀ q ∈ l, q ∈ (s.serve env p).2.sockets := fun q hq ↦
      hr.sockets ▸ hl q (by simp [hq])
    rw [List.foldl_cons, hinv.receiveLoop_eq (.inl hp)]
    by_cases htrace : LeavesTrace env p s
    · have htidy' : (s.serve env p).2.Tidy := by
        intro q hq
        rw [hr.sockets] at hq
        rcases eq_or_ne q p with rfl | hqp
        · exact hown.2 htrace
        · exact (serve_client_spared hinv henv hp hqp).tidyAt_iff.2 (htidy q hq)
      rw [ih hr.inv hrest hnodup hrefuses.2 htidy']
      exact (and_iff_right htrace).symm
    · -- Nobody else can put the client on the list in this round.
      refine iff_of_false ?_ fun h ↦ htrace h.1
      intro hall
      obtain ⟨_, -, hround⟩ := hr.inv.receiveRound env l (fun q hq ↦ .inl (hrest q hq))
        ((s.serve env p).1 || b)
      have hspared := receiveLoop_spared henv l hr.inv hrest hnot ((s.serve env p).1 || b)
      refine htrace (hown.1 (hspared.tidyAt_iff.1 (hall p ?_)))
      rw [hround.sockets, hr.sockets]
      exact hp

theorem runOp_spared {op : ℕ × SocketOp} (hop : op.2.replies = true) (p : Ptr) :
    Spared p s (s.runOp op) := by
  refine ⟨?_, by rw [(Quiet.runOp s op).disconnectedSockets]⟩
  obtain ⟨a, op⟩ := op
  rcases eq_or_ne p (.client a) with rfl | hne
  · by_cases ha : Ptr.client a ∈ s.sockets
    · cases op with
      | consume rcvBuffer index =>
        simp only [Server.runOp, if_pos ha, Server.place, Server.touch, update_self]
      | send data =>
        simp only [Server.runOp, if_pos ha, Server.place, Server.touch, update_self]
        exact (send_frame _ data).1.fd
      | destroy => cases hop
      | connect created => cases hop
    · rw [Server.runOp, if_neg ha]
  · have hplain : ∀ created, op ≠ .connect created := by
      rintro created rfl
      cases hop
    rw [runOp_elsewhere hplain hne]

theorem runOps_spared {ops : List (ℕ × SocketOp)} (hops : ∀ op ∈ ops, op.2.replies = true)
    (p : Ptr) : Spared p s (s.runOps ops) := by
  induction ops generalizing s with
  | nil => exact .refl p s
  | cons op ops ih =>
    exact (runOp_spared (hops op List.mem_cons_self) p).trans
      (ih fun op hop ↦ hops op (List.mem_cons_of_mem _ hop))

theorem sendLoop_spared (env : RoundEnv) (l : List Ptr) (hinv : Inv s)
    (hl : ∀ p ∈ l, s.known p) (hp : p ≠ .listener) :
    Spared p s (l.foldl (Server.sendLoop env) s) := by
  induction l generalizing s with
  | nil => exact .refl p s
  | cons q l ih =>
    have hq := hl q (by simp)
    have hrest : ∀ r ∈ l, s.known r := fun r hr ↦ hl r (by simp [hr])
    rw [List.foldl_cons, hinv.sendLoop_eq hq]
    by_cases hmem : q ∈ s.sockets
    · rw [if_pos hmem]
      exact ih hinv hrest
    · rw [if_neg hmem]
      have hr := hinv.serveRound hq env
      obtain ⟨rfl, -⟩ := hq.resolve_left hmem
      exact (serve_listener_spared hinv hp).trans (ih hr.inv fun r hr' ↦ hr.known (hrest r hr'))

theorem sendAndRecv_tidy_iff (hinv : Inv s) (henv : OwnCallbacks env) (hefd : 0 ≤ s.efd)
    (hrefuses : EachService RefusesClosed env s.receiveSockets s) (htidy : s.Tidy) :
    (s.sendAndRecv env).Tidy ↔ EachService LeavesTrace env s.receiveSockets s := by
  have hclients : ∀ p ∈ s.receiveSockets, p ∈ s.sockets := fun p hp ↦ hinv.lists.receive_eq ▸ hp
  have hnodup : s.receiveSockets.Nodup := hinv.lists.receive_eq ▸ hinv.lists.sockets_nodup
  have hloop := receiveLoop_tidy_iff henv s.receiveSockets hinv hclients hnodup hrefuses htidy false
  obtain ⟨received, -, hround⟩ := hinv.receiveRound env s.receiveSockets
    (fun p hp ↦ .inl (hclients p hp)) false
  unfold Server.sendAndRecv
  rw [if_neg (not_lt.2 hefd), ← hloop]
  generalize s.receiveSockets.foldl (Server.receiveLoop env) (false, s) = r at hround
  obtain ⟨b, t⟩ := r
  dsimp only at hround ⊢
  generalize hu : (if b then (t.emit .recvFinished).runOps env.finished else t) = u
  have hfin : Inv u ∧ u.sockets = t.sockets ∧ ∀ p, Spared p t u := by
    subst hu
    cases b with
    | false => exact ⟨hround.inv, rfl, fun p ↦ .refl p t⟩
    | true =>
      have hinv' := (hround.inv.emit (e := .recvFinished) trivial).runOps env.finished
      have hq := Quiet.runOps env.finished (t.emit .recvFinished)
      refine ⟨hinv', hq.sockets, fun p ↦ ?_⟩
      have hspared := runOps_spared (s := t.emit .recvFinished) henv.finished p
      exact ⟨hspared.fd, hspared.listed⟩
  obtain ⟨hinv', hsockets, hspared⟩ := hfin
  have hsend := fun p hp ↦ sendLoop_spared env u.sendSockets hinv' hinv'.lists.send_known
    (p := p) hp
  obtain ⟨_, hround'⟩ := hinv'.sendRound env u.sendSockets hinv'.lists.send_known
  refine Spared.tidy_iff (hround'.sockets.trans hsockets) ?_
  intro p hp
  have hne : p ≠ .listener := by
    rintro rfl
    exact hround.inv.listener_notMem hp
  exact (hspared p).trans (hsend p hne)

end Round

section Poll

variable {s : Server}

theorem addClient_open {ok : Bool} {p q : Ptr} (hq : q ∈ (s.addClient ok p).sockets) :
    q ∈ s.sockets ∨ 0 ≤ ((s.addClient ok p).memory q).fd := by
  have hquiet := Quiet.epollAdd ok p s
  have hmem := s.epollAdd_memory ok p
  unfold Server.addClient at hq ⊢
  cases hadded : (s.epollAdd ok p).1 with
  | false =>
    left
    simp only [hadded, Bool.not_false, if_true] at hq
    rwa [(Quiet.deleteSocket p _).sockets, hquiet.sockets] at hq
  | true =>
    have hfd : 0 ≤ (s.memory p).fd := by
      by_contra hneg
      rw [Server.epollAdd, if_pos (.inr (.inr (not_le.1 hneg)))] at hadded
      cases hadded
    simp only [hadded, Bool.not_true, Bool.false_eq_true, if_false] at hq ⊢
    rw [mem_addUnique] at hq
    refine hq.imp (fun hq ↦ hquiet.sockets ▸ hq) ?_
    rintro rfl
    exact hfd.trans_eq (congrArg Socket.fd (congrFun hmem q).symm)

theorem acceptOne_open {a : Accepted} {q : Ptr} (hq : q ∈ (s.acceptOne a).sockets) :
    q ∈ s.sockets ∨ 0 ≤ ((s.acceptOne a).memory q).fd := by
  unfold Server.acceptOne at hq ⊢
  dsimp only at hq ⊢
  split at hq
  next => exact .inl hq
  next hconfigured =>
    rw [if_neg hconfigured]
    exact (addClient_open hq).imp_left id

theorem Server.AllOpen.acceptAll (h : s.AllOpen) (hinv : Inv s) (accepts : List Accepted) :
    (accepts.foldl Server.acceptOne s).AllOpen := by
  induction accepts generalizing s with
  | nil => exact h
  | cons a accepts ih =>
    have hgrown := hinv.acceptOne a
    refine ih ?_ hgrown.inv
    intro q hq
    rcases acceptOne_open hq with hold | hnew
    · rw [hgrown.memory q (Server.mem_holders hold)]
      exact h q hold
    · exact hnew

theorem Server.Tidy.poll (h : s.Tidy) (hinv : Inv s) (env : PollEnv) (hefd : 0 ≤ s.efd) :
    (s.poll env).AllOpen := by
  have hpurged := hinv.deleteDisconnected env
  have hopen : (s.deleteDisconnected env).AllOpen := by
    intro p hp
    rw [hpurged.sockets] at hp
    obtain ⟨hp, hstay⟩ := List.mem_filter.1 hp
    have hstay := of_decide_eq_true hstay
    rw [hpurged.memory p hstay]
    by_contra hneg
    have hne : p ≠ .listener := fun heq ↦ hinv.listener_notMem (heq ▸ hp)
    exact hstay (List.mem_filter.2 ⟨h p hp (not_le.1 hneg), decide_eq_true hne⟩)
  have hwait : Inv ((s.deleteDisconnected env).emit (.system .epollWait)) :=
    hpurged.inv.emit trivial
  have hd : Dispatched _ (s.dispatched env).2 :=
    hwait.dispatchAll false _ (polledEvents_known env hwait)
  have hmemory : (s.dispatched env).2.memory = (s.deleteDisconnected env).memory :=
    congrArg Resources.memory hd.resources
  have hdispatched : (s.dispatched env).2.AllOpen := by
    intro p hp
    rw [hd.sockets] at hp
    rw [hmemory]
    exact hopen p hp
  rw [s.poll_eq env (not_lt.2 hefd)]
  split
  · unfold Server.acceptLoop
    rw [ite_self]
    exact hdispatched.acceptAll hd.inv env.accepts
  · exact hdispatched

theorem Server.AllOpen.tidy (h : s.AllOpen) : s.Tidy := by
  intro p hp hneg
  exact absurd (h p hp) (not_le.2 hneg)

theorem Server.Tidy.of_nil (h : s.sockets = []) : s.Tidy := by
  intro p hp
  rw [h] at hp
  cases hp

end Poll

section Run

variable {s : Server}

theorem everyRound_tidy_iff (ops : List Op) (hinv : Inv s) (htidy : s.Tidy)
    (hops : ∀ env, .sendAndRecv env ∈ ops → OwnCallbacks env)
    (hrefuses : EveryService RefusesClosed ops s) :
    EveryRound (fun t ↦ t.Tidy ∧ ∀ env, 0 ≤ t.efd → (t.poll env).AllOpen) ops s ↔
      EveryService LeavesTrace ops s := by
  induction ops generalizing s with
  | nil => exact Iff.rfl
  | cons op ops ih =>
    have hrest := fun env hmem ↦ hops env (List.mem_cons_of_mem op hmem)
    cases op with
    | listen env =>
      obtain ⟨hl, hnil, -⟩ := hinv.listen env
      exact ih hl (.of_nil hnil) hrest hrefuses
    | poll env =>
      have hnext : (s.poll env).Tidy := by
        by_cases hefd : s.efd < 0
        · rwa [Server.poll, if_pos hefd]
        · exact (htidy.poll hinv env (not_lt.1 hefd)).tidy
      exact ih (hinv.poll env) hnext hrest hrefuses
    | destroy => exact ih hinv.destroy.inv (.of_nil hinv.destroy.sockets) hrest hrefuses
    | sendAndRecv env =>
      have henv := hops env List.mem_cons_self
      have hinv' := hinv.sendAndRecv env
      have hround : (s.sendAndRecv env).Tidy ↔
          (0 ≤ s.efd → EachService LeavesTrace env s.receiveSockets s) := by
        by_cases hefd : 0 ≤ s.efd
        · rw [sendAndRecv_tidy_iff hinv henv hefd (hrefuses.1 hefd) htidy]
          exact (imp_iff_right hefd).symm
        · rw [Server.sendAndRecv, if_pos (not_le.1 hefd)]
          exact iff_of_true htidy fun h ↦ absurd h hefd
      constructor
      · intro hevery
        obtain ⟨⟨hnext, -⟩, hevery⟩ := hevery
        exact ⟨hround.1 hnext, (ih hinv' hnext hrest hrefuses.2).1 hevery⟩
      · intro hevery
        obtain ⟨htrace, hevery⟩ := hevery
        have hnext := hround.2 htrace
        exact ⟨⟨hnext, fun env' hefd ↦ hnext.poll hinv' env' hefd⟩,
          (ih hinv' hnext hrest hrefuses.2).2 hevery⟩

/-- In every run whose receive callbacks consume, send and close on their own
socket: behind each round the clients without a descriptor are due for deletion,
and the next `poll()` leaves none of them, if and only if no callback closes its
client without queueing something after that, except for clients that epoll has
reported before. -/
theorem run_deletes_closed_iff (memory : Ptr → Socket) (ops : List Op)
    (hops : ∀ env, .sendAndRecv env ∈ ops → OwnCallbacks env)
    (hrefuses : EveryService RefusesClosed ops (.new memory)) :
    EveryRound (fun t ↦ (∀ p ∈ t.sockets, (t.memory p).fd < 0 → p ∈ t.disconnectedSockets) ∧
      ∀ env, 0 ≤ t.efd → ∀ p ∈ (t.poll env).sockets, 0 ≤ ((t.poll env).memory p).fd)
        ops (.new memory) ↔
      EveryService LeavesTrace ops (.new memory) :=
  everyRound_tidy_iff ops (Idle.new memory).inv (.of_nil rfl) hops hrefuses

def parting (replies : List Data) : RoundEnv where
  io _ := ⟨.received [7] [], fun _ ↦ .error ebadf⟩
  callback
    | .client a => (a, .consume (fun _ ↦ 0) 0) :: (a, .destroy) ::
        replies.map fun data ↦ (a, .send data)
    | _ => []
  finished := []

theorem parting_ownCallbacks (replies : List Data) : OwnCallbacks (parting replies) where
  own a op hop := by
    simp only [parting, List.mem_cons, List.mem_map] at hop
    obtain rfl | rfl | ⟨data, -, rfl⟩ := hop <;> rfl
  plain a op hop created := by
    simp only [parting, List.mem_cons, List.mem_map] at hop
    obtain rfl | rfl | ⟨data, -, rfl⟩ := hop <;> nofun
  finished op hop := by cases hop

theorem run_deletes_closed_iff_reply :
    let ops := [listening, accepting [connection 5 0], .sendAndRecv (parting [.bytes [8]])]
    .client 0 ∈ (run blank ops).disconnectedSockets ∧
      ((run blank ops).memory (.client 0)).fd < 0 ∧
      EveryRound (fun t ↦
        (∀ p ∈ t.sockets, (t.memory p).fd < 0 → p ∈ t.disconnectedSockets) ∧
        ∀ env, 0 ≤ t.efd → ∀ p ∈ (t.poll env).sockets, 0 ≤ ((t.poll env).memory p).fd)
          ops (.new blank) := by
  intro ops
  have hops : ∀ env, .sendAndRecv env ∈ ops → OwnCallbacks env := by
    intro env hmem
    simp only [ops, listening, accepting, reporting, List.mem_cons, reduceCtorEq, false_or,
      List.not_mem_nil, or_false, Op.sendAndRecv.injEq] at hmem
    rw [hmem]
    exact parting_ownCallbacks _
  have hrefuses : EveryService RefusesClosed ops (.new blank) :=
    ⟨fun _ ↦ .of_forall (fun _ _ _ _ ↦ rfl) _ _, trivial⟩
  refine ⟨by decide, by decide, (run_deletes_closed_iff blank ops hops hrefuses).2 ?_⟩
  refine ⟨fun _ ↦ .of_forall (fun p _ _ hclosed ↦ ?_) _ _, trivial⟩
  cases p with
  | client a =>
    have hrefilled : aftermath ((parting [.bytes [8]]).callback (.client a)) = .refilled := rfl
    rw [hrefilled] at hclosed
    cases hclosed
  | null | listener => cases hclosed

/-- The callback closes its client and sends nothing. The client is never marked,
and neither the next `poll()` nor the next round changes that. -/
theorem run_keeps_closed_client :
    let ops := [listening, accepting [connection 5 0], .sendAndRecv (parting [])]
    let later := ops ++ [reporting [] [], .sendAndRecv (parting []), reporting [] []]
    OwnCallbacks (parting []) ∧ EveryService RefusesClosed ops (.new blank) ∧
      .client 0 ∈ (run blank ops).sockets ∧ ((run blank ops).memory (.client 0)).fd < 0 ∧
      .client 0 ∉ (run blank ops).disconnectedSockets ∧
      .client 0 ∈ (run blank later).sockets ∧ ((run blank later).memory (.client 0)).fd < 0 ∧
      .client 0 ∉ (run blank later).disconnectedSockets := by
  refine ⟨parting_ownCallbacks [], ⟨fun _ ↦ .of_forall (fun _ _ _ _ ↦ rfl) _ _, trivial⟩, ?_⟩
  decide

end Run

end LowLatency.TCPServer
