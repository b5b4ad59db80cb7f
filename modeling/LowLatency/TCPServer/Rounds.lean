import LowLatency.TCPServer.Invariant

namespace LowLatency.TCPServer

open Library.Handles SocketUtils TCPSocket Function

section Rounds

def servedSockets (log : List Event) : List Ptr :=
  log.filterMap fun e ↦ match e with
    | .served p _ _ => some p
    | _ => none

def callbacks (log : List Event) : List Ptr :=
  log.filterMap fun e ↦ match e with
    | .recvCallback p => some p
    | _ => none

@[simp]
theorem servedSockets_append (log new : List Event) :
    servedSockets (log ++ new) = servedSockets log ++ servedSockets new :=
  List.filterMap_append

@[simp]
theorem callbacks_append (log new : List Event) :
    callbacks (log ++ new) = callbacks log ++ callbacks new :=
  List.filterMap_append

theorem servedSockets_silent {new : List Event} (h : ∀ e ∈ new, e.silent) :
    servedSockets new = [] := by
  apply List.filterMap_eq_nil_iff.2
  intro e he
  have := h e he
  cases e <;> first | rfl | exact this.elim

theorem callbacks_silent {new : List Event} (h : ∀ e ∈ new, e.silent) : callbacks new = [] := by
  apply List.filterMap_eq_nil_iff.2
  intro e he
  have := h e he
  cases e <;> first | rfl | exact this.elim

/-- A loop that served the sockets `l`, in order; `received` says whether a
receive callback ran. -/
structure Round (l : List Ptr) (received : Bool) (s t : Server) : Prop where
  inv : Inv t
  efd : t.efd = s.efd
  sockets : t.sockets = s.sockets
  sendSockets : t.sendSockets = s.sendSockets
  disconnected : ∀ p ∉ l, p ∈ t.disconnectedSockets ↔ p ∈ s.disconnectedSockets
  log : ∃ new, t.log = s.log ++ new ∧ servedSockets new = l ∧ (callbacks new).Sublist l ∧
    (received ↔ callbacks new ≠ []) ∧ .recvFinished ∉ new

theorem Round.nil {s : Server} (h : Inv s) : Round [] false s s :=
  ⟨h, rfl, rfl, rfl, fun _ _ ↦ .rfl, [], (List.append_nil _).symm, rfl, List.nil_sublist _,
    by simp [callbacks], by simp⟩

theorem Round.trans {l k : List Ptr} {b b' : Bool} {s t u : Server} (h : Round l b s t)
    (h' : Round k b' t u) : Round (l ++ k) (b || b') s u := by
  obtain ⟨new, hlog, hserved, hsub, hb, hfin⟩ := h.log
  obtain ⟨new', hlog', hserved', hsub', hb', hfin'⟩ := h'.log
  refine ⟨h'.inv, h'.efd.trans h.efd, h'.sockets.trans h.sockets,
    h'.sendSockets.trans h.sendSockets, fun p hp ↦ ?_, new ++ new', ?_, ?_, ?_, ?_, ?_⟩
  · rw [List.mem_append, not_or] at hp
    exact (h'.disconnected p hp.2).trans (h.disconnected p hp.1)
  · rw [hlog', hlog, List.append_assoc]
  · rw [servedSockets_append, hserved, hserved']
  · rw [callbacks_append]
    exact hsub.append hsub'
  · rw [Bool.or_eq_true, hb, hb', callbacks_append]
    simp only [ne_eq, List.append_eq_nil_iff, not_and_or]
  · simp [hfin, hfin']

theorem serve_listed {s : Server} {p q : Ptr} (hinv : Inv s) (hp : some p ∈ holders s.members)
    (env : RoundEnv) : q ∈ (s.serve env p).2.disconnectedSockets ↔
      q ∈ s.disconnectedSockets ∨ q = p ∧ (s.callSocket env p).2.flagged p = true := by
  rw [(serve_served env hinv.sound hp).disconnectedSockets]
  cases (s.callSocket env p).2.flagged p with
  | false => simp
  | true => simp [mem_addUnique]

theorem Inv.serveRound {s : Server} {p : Ptr} (h : Inv s) (hp : s.known p) (env : RoundEnv) :
    Round [p] (s.serve env p).1 s (s.serve env p).2 := by
  obtain ⟨hinv, hs⟩ := h.serve hp env
  obtain ⟨new, new', hnew, hnew', hlog⟩ := hs.log
  have hothers : ∀ q ∉ [p], q ∈ (s.serve env p).2.disconnectedSockets ↔
      q ∈ s.disconnectedSockets := by
    intro q hq
    rw [serve_listed h hp.holder, or_iff_left]
    exact fun hqp ↦ hq (List.mem_singleton.2 hqp.1)
  rw [show (s.serve env p).1 = (s.callSocket env p).1.returned from rfl]
  generalize (s.callSocket env p).1 = record at hlog
  generalize (s.callSocket env p).2.flagged p = d at hlog
  refine ⟨hinv, hs.efd, hs.sockets, hs.sendSockets, hothers,
    new ++ (if record.returned then [.recvCallback p] else []) ++ new' ++ [.served p record d],
    ?_, ?_, ?_, ?_, ?_⟩
  · simpa only [List.append_assoc] using hlog
  · simp only [servedSockets_append, servedSockets_silent hnew, servedSockets_silent hnew']
    split <;> rfl
  · simp only [callbacks_append, callbacks_silent hnew, callbacks_silent hnew']
    split <;> simp [callbacks]
  · simp only [callbacks_append, callbacks_silent hnew, callbacks_silent hnew']
    cases record.returned <;> simp [callbacks]
  · have h₁ : Event.recvFinished ∉ new := fun hmem ↦ hnew _ hmem
    have h₂ : Event.recvFinished ∉ new' := fun hmem ↦ hnew' _ hmem
    cases record.returned <;> simp [h₁, h₂]

theorem Inv.ne_null {s : Server} {p : Ptr} (h : Inv s) (hp : s.known p) : p ≠ .null := by
  rcases hp with hp | ⟨rfl, -⟩
  · obtain ⟨a, -, rfl⟩ := (h.sound.owned_iff p).1 hp
    nofun
  · nofun

theorem Inv.receiveLoop_eq {s : Server} {p : Ptr} (h : Inv s) (hp : s.known p) (env : RoundEnv)
    (b : Bool) : Server.receiveLoop env (b, s) p = ((s.serve env p).1 || b, (s.serve env p).2) :=
  if_neg (h.ne_null hp)

theorem Inv.sendLoop_eq {s : Server} {p : Ptr} (h : Inv s) (hp : s.known p) (env : RoundEnv) :
    Server.sendLoop env s p = if p ∈ s.sockets then s else (s.serve env p).2 := by
  rw [Server.sendLoop, if_neg (h.ne_null hp), h.lists.receive_eq]

theorem Round.known {l : List Ptr} {b : Bool} {s t : Server} {p : Ptr} (h : Round l b s t)
    (hp : s.known p) : t.known p := by
  obtain ⟨new, hlog, -⟩ := h.log
  exact hp.mono (fun q hq ↦ h.sockets ▸ hq) (hlog ▸ List.prefix_append _ _)

theorem Inv.receiveRound {s : Server} (h : Inv s) (env : RoundEnv) (l : List Ptr)
    (hl : ∀ p ∈ l, s.known p) (b : Bool) :
    ∃ received, (l.foldl (Server.receiveLoop env) (b, s)).1 = (b || received) ∧
      Round l received s (l.foldl (Server.receiveLoop env) (b, s)).2 := by
  induction l generalizing s b with
  | nil => exact ⟨false, (Bool.or_false b).symm, .nil h⟩
  | cons p l ih =>
    have hp := hl p (by simp)
    have hr := h.serveRound hp env
    rw [List.foldl_cons, h.receiveLoop_eq hp]
    obtain ⟨received, hb, hround⟩ := ih hr.inv (fun q hq ↦ hr.known (hl q (by simp [hq])))
      ((s.serve env p).1 || b)
    refine ⟨(s.serve env p).1 || received, ?_, hr.trans hround⟩
    rw [hb, Bool.or_comm (s.serve env p).1 b, Bool.or_assoc]

theorem Inv.sendRound {s : Server} (h : Inv s) (env : RoundEnv) (l : List Ptr)
    (hl : ∀ p ∈ l, s.known p) :
    ∃ received, Round (l.filter (· ∉ s.sockets)) received s (l.foldl (Server.sendLoop env) s) := by
  induction l generalizing s with
  | nil => exact ⟨false, .nil h⟩
  | cons p l ih =>
    have hp := hl p (by simp)
    have hrest : ∀ q ∈ l, s.known q := fun q hq ↦ hl q (by simp [hq])
    rw [List.foldl_cons, h.sendLoop_eq hp]
    by_cases hmem : p ∈ s.sockets
    · rw [if_pos hmem, List.filter_cons_of_neg (by simpa using hmem)]
      exact ih h hrest
    · have hr := h.serveRound hp env
      obtain ⟨received, hround⟩ := ih hr.inv fun q hq ↦ hr.known (hrest q hq)
      rw [hr.sockets] at hround
      rw [if_neg hmem, List.filter_cons_of_pos (by simpa using hmem)]
      exact ⟨_, hr.trans hround⟩

theorem Inv.sendAndRecv_open {s : Server} (h : Inv s) (env : RoundEnv) (hefd : ¬ s.efd < 0) :
    ∃ t u received received',
      s.receiveSockets.foldl (Server.receiveLoop env) (false, s) = (received, t) ∧
      Round s.sockets received s t ∧
      u = (if received then (t.emit .recvFinished).runOps env.finished else t) ∧
      Round (s.sendSockets.filter (· ∉ s.sockets)) received' u (s.sendAndRecv env) := by
  have hclients : ∀ p ∈ s.receiveSockets, s.known p := fun p hp ↦ .inl (h.lists.receive_eq ▸ hp)
  obtain ⟨received, hb, hround⟩ := h.receiveRound env s.receiveSockets hclients false
  unfold Server.sendAndRecv
  rw [if_neg hefd]
  dsimp only
  generalize s.receiveSockets.foldl (Server.receiveLoop env) (false, s) = r at hb hround
  obtain ⟨b, t⟩ := r
  dsimp only at hb hround ⊢
  rw [h.lists.receive_eq] at hround
  rw [Bool.false_or] at hb
  subst hb
  generalize hu : (if b then (t.emit .recvFinished).runOps env.finished else t) = u
  have hfin : Inv u ∧ u.sockets = t.sockets ∧ u.sendSockets = t.sendSockets := by
    subst hu
    cases b with
    | false => exact ⟨hround.inv, rfl, rfl⟩
    | true =>
      have hq := Quiet.runOps env.finished (t.emit .recvFinished)
      have hinv := (hround.inv.emit (e := .recvFinished) trivial).runOps env.finished
      exact ⟨hinv, hq.sockets, hq.sendSockets⟩
  obtain ⟨hinv, hsockets, hsend⟩ := hfin
  obtain ⟨received', hround'⟩ := hinv.sendRound env u.sendSockets hinv.lists.send_known
  rw [hsockets, hround.sockets] at hround'
  rw [hsend, hround.sendSockets] at hround' ⊢
  exact ⟨t, u, b, received', rfl, hround, hu.symm, hround'⟩

theorem Inv.sendAndRecv {s : Server} (h : Inv s) (env : RoundEnv) : Inv (s.sendAndRecv env) := by
  by_cases hefd : s.efd < 0
  · rwa [Server.sendAndRecv, if_pos hefd]
  · obtain ⟨t, u, received, received', -, -, -, hround⟩ := h.sendAndRecv_open env hefd
    exact hround.inv

end Rounds

end LowLatency.TCPServer
