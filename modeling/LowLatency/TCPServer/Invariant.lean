import LowLatency.TCPServer.Operations
import Mathlib.Data.List.Nodup

namespace LowLatency.TCPServer

open Library.Handles SocketUtils TCPSocket Function

def markStep (p : Ptr) (m : Bool) : Event → Bool
  | .polled => false
  | .destroyed => false
  | .reported q => m || decide (q = p)
  | .served q _ disconnected => m || (disconnected && decide (q = p))
  | _ => m

/-- Since the last `poll()` took the list of disconnected sockets, `p` was
reported with an error or left its `sendAndRecv()` with a flag set. -/
def marked (p : Ptr) (log : List Event) : Bool := log.foldl (markStep p) false

def orderStep (l : List Ptr) : Event → List Ptr
  | .accepted p => l.filter (· ≠ p) ++ [p]
  | _ => l

/-- Every socket that was ever accepted, by its latest acceptance. -/
def acceptanceOrder (log : List Event) : List Ptr := log.foldl orderStep []

def Event.passive : Event → Prop
  | .polled | .destroyed | .reported _ | .served .. | .accepted _ => False
  | _ => True

theorem Event.silent.passive {e : Event} (h : e.silent) : e.passive := by
  cases e <;> trivial

section History

variable (p : Ptr) (log : List Event)

theorem marked_concat (e : Event) : marked p (log ++ [e]) = markStep p (marked p log) e := by
  rw [marked, List.foldl_concat]
  rfl

theorem acceptanceOrder_concat (e : Event) :
    acceptanceOrder (log ++ [e]) = orderStep (acceptanceOrder log) e := by
  rw [acceptanceOrder, List.foldl_concat]
  rfl

theorem marked_append {new : List Event} (h : ∀ e ∈ new, e.passive) :
    marked p (log ++ new) = marked p log := by
  induction new using List.reverseRecOn with
  | nil => rw [List.append_nil]
  | append_singleton new e ih =>
    rw [← List.append_assoc, marked_concat, ih fun e he ↦ h e (by simp [he])]
    have := h e (by simp)
    cases e <;> first | rfl | exact this.elim

theorem acceptanceOrder_append {new : List Event} (h : ∀ e ∈ new, ∀ l, orderStep l e = l) :
    acceptanceOrder (log ++ new) = acceptanceOrder log := by
  induction new using List.reverseRecOn with
  | nil => rw [List.append_nil]
  | append_singleton new e ih =>
    rw [← List.append_assoc, acceptanceOrder_concat, ih fun e he ↦ h e (by simp [he]),
      h e (by simp)]

theorem orderStep_passive {e : Event} (he : e.passive) (l : List Ptr) : orderStep l e = l := by
  cases e <;> first | rfl | exact he.elim

theorem acceptanceOrder_nodup : (acceptanceOrder log).Nodup := by
  induction log using List.reverseRecOn with
  | nil => exact List.nodup_nil
  | append_singleton log e ih =>
    rw [acceptanceOrder_concat]
    cases e with
    | accepted p =>
      refine (ih.filter _).append (List.nodup_singleton p) ?_
      simp
    | _ => exact ih

end History

def Server.known (s : Server) (p : Ptr) : Prop :=
  p ∈ s.sockets ∨ p = .listener ∧ .listenerWritable ∈ s.log

structure Lists (s : Server) : Prop where
  receive_eq : s.receiveSockets = s.sockets
  sockets_nodup : s.sockets.Nodup
  send_nodup : s.sendSockets.Nodup
  disconnected_nodup : s.disconnectedSockets.Nodup
  send_known : ∀ p ∈ s.sendSockets, s.known p
  disconnected_known : ∀ p ∈ s.disconnectedSockets, s.known p
  marked_iff : ∀ p, p ∈ s.disconnectedSockets ↔ marked p s.log
  order : s.sockets.Sublist (acceptanceOrder s.log)

/-- The invariant between the operations of a server, and inside `poll()` and
`sendAndRecv()`. -/
structure Inv (s : Server) : Prop where
  sound : Sound s.members s.resources
  lists : Lists s

theorem mem_addUnique {p q : Ptr} {l : List Ptr} : q ∈ addUnique l p ↔ q ∈ l ∨ q = p := by
  unfold addUnique
  split
  next hmem =>
    refine ⟨.inl, ?_⟩
    rintro (h | rfl)
    · exact h
    · exact hmem
  next => simp

theorem addUnique_nodup {p : Ptr} {l : List Ptr} (h : l.Nodup) : (addUnique l p).Nodup := by
  unfold addUnique
  split
  next => exact h
  next hmem =>
    refine h.append (List.nodup_singleton p) ?_
    simpa using hmem

theorem addUnique_of_mem {p : Ptr} {l : List Ptr} (h : p ∈ l) : addUnique l p = l := if_pos h

theorem addUnique_of_notMem {p : Ptr} {l : List Ptr} (h : p ∉ l) : addUnique l p = l ++ [p] :=
  if_neg h

section Known

variable {s t : Server} {p : Ptr}

theorem Server.known.mono (h : s.known p) (hs : ∀ q ∈ s.sockets, q ∈ t.sockets)
    (hl : s.log <+: t.log) : t.known p :=
  h.imp (hs p) (And.imp_right fun hw ↦ hl.subset hw)

theorem Server.known.holder (h : s.known p) : some p ∈ holders s.members :=
  some_mem_holders.2 (h.symm.imp_left And.left)

end Known

namespace Lists

variable {s t : Server} {p : Ptr}

theorem quiet (h : Lists s) (hq : Quiet s t) : Lists t := by
  obtain ⟨new, hlog, hnew⟩ := hq.log
  have hknown : ∀ p, s.known p → t.known p := fun p hp ↦
    hp.mono (fun q hq' ↦ hq.sockets ▸ hq') (hlog ▸ List.prefix_append _ _)
  have hpassive : ∀ e ∈ new, e.passive := fun e he ↦ (hnew e he).passive
  refine ⟨?_, ?_, ?_, ?_, ?_, ?_, ?_, ?_⟩
  · rw [hq.receiveSockets, hq.sockets, h.receive_eq]
  · exact hq.sockets ▸ h.sockets_nodup
  · exact hq.sendSockets ▸ h.send_nodup
  · exact hq.disconnectedSockets ▸ h.disconnected_nodup
  · exact hq.sendSockets ▸ fun p hp ↦ hknown p (h.send_known p hp)
  · exact hq.disconnectedSockets ▸ fun p hp ↦ hknown p (h.disconnected_known p hp)
  · intro p
    rw [hq.disconnectedSockets, h.marked_iff, hlog, marked_append p _ hpassive]
  · rw [hq.sockets, hlog,
      acceptanceOrder_append _ fun e he ↦ orderStep_passive (hpassive e he)]
    exact h.order

theorem served {record : Record} {d : Bool} (h : Lists s) (hp : s.known p)
    (hs : Served p record d s t) : Lists t := by
  obtain ⟨new, hlog, hnew⟩ := hs.events
  have hd := hs.disconnectedSockets
  have hpassive : ∀ e ∈ new, e.passive := by
    intro e he
    rcases hnew e he with he | rfl
    · exact he.passive
    · trivial
  have hknown : ∀ q, s.known q → t.known q := fun q hq ↦
    hq.mono (fun q hq' ↦ hs.sockets ▸ hq') (by
      rw [hlog, List.append_assoc]
      exact List.prefix_append _ _)
  refine ⟨?_, hs.sockets ▸ h.sockets_nodup, hs.sendSockets ▸ h.send_nodup, ?_,
    hs.sendSockets ▸ fun q hq ↦ hknown q (h.send_known q hq), ?_, fun q ↦ ?_, ?_⟩
  · rw [hs.receiveSockets, hs.sockets, h.receive_eq]
  · rw [hd]
    split
    · exact addUnique_nodup h.disconnected_nodup
    · exact h.disconnected_nodup
  · intro q hq
    rw [hd] at hq
    split at hq
    · rcases mem_addUnique.1 hq with hq | rfl
      · exact hknown q (h.disconnected_known q hq)
      · exact hknown q hp
    · exact hknown q (h.disconnected_known q hq)
  · rw [hlog, marked_concat, marked_append q s.log hpassive, hd]
    cases d with
    | false => simp [markStep, h.marked_iff]
    | true => simp [markStep, mem_addUnique, h.marked_iff, @eq_comm _ p q]
  · rw [hs.sockets, hlog, acceptanceOrder_concat,
      acceptanceOrder_append _ fun e he ↦ orderStep_passive (hpassive e he)]
    exact h.order

theorem removed (h : Lists s) (hp : p ∉ s.disconnectedSockets) (hr : Removed p s t) :
    Lists t := by
  obtain ⟨calls, hlog⟩ := hr.log
  have hdis : t.disconnectedSockets = s.disconnectedSockets := by
    rw [hr.disconnectedSockets]
    exact List.filter_eq_self.2 fun q hq ↦ decide_eq_true fun hqp ↦ hp (hqp ▸ hq)
  have hknown : ∀ q, s.known q → q ≠ p → t.known q := by
    rintro q (hq | ⟨rfl, hw⟩) hne
    · exact .inl (by rw [hr.sockets, mem_removeSocket]; exact ⟨hq, hne⟩)
    · exact .inr ⟨rfl, by simp [hlog, hw]⟩
  have hpassive : ∀ e ∈ calls.map Event.system ++ [Event.deleted p], e.passive := by
    intro e he
    rcases List.mem_append.1 he with he | he
    · obtain ⟨call, -, rfl⟩ := List.mem_map.1 he
      trivial
    · exact List.mem_singleton.1 he ▸ trivial
  rw [List.append_assoc] at hlog
  refine ⟨?_, ?_, ?_, hdis ▸ h.disconnected_nodup, ?_, ?_, ?_, ?_⟩
  · rw [hr.receiveSockets, hr.sockets, h.receive_eq]
  · exact hr.sockets ▸ h.sockets_nodup.filter _
  · exact hr.sendSockets ▸ h.send_nodup.filter _
  · intro q hq
    rw [hr.sendSockets, mem_removeSocket] at hq
    exact hknown q (h.send_known q hq.1) hq.2
  · intro q hq
    rw [hdis] at hq
    exact hknown q (h.disconnected_known q hq) fun hqp ↦ hp (hqp ▸ hq)
  · intro q
    rw [hdis, h.marked_iff, hlog, marked_append q _ hpassive]
  · rw [hr.sockets, hlog,
      acceptanceOrder_append _ fun e he ↦ orderStep_passive (hpassive e he)]
    exact List.filter_sublist.trans h.order

theorem joined (h : Lists s) (hp : p ∉ s.sockets) (hj : Joined p s t) : Lists t := by
  obtain ⟨new, hlog, hnew⟩ := hj.log
  have hpassive : ∀ e ∈ new, e.passive := fun e he ↦ (hnew e he).passive
  have hknown : ∀ q, s.known q → t.known q := fun q hq ↦
    hq.mono (fun q hq' ↦ by rw [hj.sockets, mem_addUnique]; exact .inl hq') (by
      rw [hlog, List.append_assoc]
      exact List.prefix_append _ _)
  refine ⟨?_, hj.sockets ▸ addUnique_nodup h.sockets_nodup, hj.sendSockets ▸ h.send_nodup,
    hj.disconnectedSockets ▸ h.disconnected_nodup,
    hj.sendSockets ▸ fun q hq ↦ hknown q (h.send_known q hq),
    hj.disconnectedSockets ▸ fun q hq ↦ hknown q (h.disconnected_known q hq), fun q ↦ ?_, ?_⟩
  · rw [hj.receiveSockets, hj.sockets, h.receive_eq]
  · rw [hj.disconnectedSockets, h.marked_iff, hlog, marked_concat, marked_append q _ hpassive]
    rfl
  · rw [hj.sockets, addUnique_of_notMem hp, hlog, acceptanceOrder_concat,
      acceptanceOrder_append _ fun e he ↦ orderStep_passive (hpassive e he)]
    refine List.Sublist.append ?_ (List.Sublist.refl _)
    have hself : s.sockets.filter (· ≠ p) = s.sockets :=
      List.filter_eq_self.2 fun q hq ↦ decide_eq_true fun hqp ↦ hp (hqp ▸ hq)
    exact hself ▸ h.order.filter _

theorem reported (h : Lists s) (hp : p ∈ s.sockets) :
    Lists { s.emit (.reported p) with
      disconnectedSockets := addUnique s.disconnectedSockets p } := by
  have hknown : ∀ q, s.known q → (s.emit (.reported p)).known q := fun q hq ↦
    hq.mono (fun _ hq' ↦ hq') (List.prefix_append _ _)
  refine ⟨h.receive_eq, h.sockets_nodup, h.send_nodup, addUnique_nodup h.disconnected_nodup,
    fun q hq ↦ hknown q (h.send_known q hq), fun q hq ↦ ?_, fun q ↦ ?_,
    acceptanceOrder_concat s.log (.reported p) ▸ h.order⟩
  · rcases mem_addUnique.1 hq with hq | rfl
    · exact hknown q (h.disconnected_known q hq)
    · exact .inl hp
  · show q ∈ addUnique _ _ ↔ marked q (s.log ++ [_])
    rw [marked_concat, mem_addUnique, h.marked_iff]
    simp [markStep, @eq_comm _ p q]

theorem writable (h : Lists s) (hp : s.known p) :
    Lists { s with sendSockets := addUnique s.sendSockets p } := by
  refine ⟨h.receive_eq, h.sockets_nodup, addUnique_nodup h.send_nodup, h.disconnected_nodup,
    ?_, h.disconnected_known, h.marked_iff, h.order⟩
  intro q hq
  rcases mem_addUnique.1 hq with hq | rfl
  · exact h.send_known q hq
  · exact hp

theorem emit (h : Lists s) {e : Event} (he : e.passive) : Lists (s.emit e) := by
  have hknown : ∀ q, s.known q → (s.emit e).known q := fun q hq ↦
    hq.mono (fun _ hq' ↦ hq') (List.prefix_append _ _)
  refine ⟨h.receive_eq, h.sockets_nodup, h.send_nodup, h.disconnected_nodup,
    fun q hq ↦ hknown q (h.send_known q hq), fun q hq ↦ hknown q (h.disconnected_known q hq),
    fun q ↦ (h.marked_iff q).trans ?_, ?_⟩
  · show _ ↔ marked q (s.log ++ [_])
    rw [marked_append q _ fun _ h ↦ List.mem_singleton.1 h ▸ he]
  · show List.Sublist _ (acceptanceOrder (s.log ++ [_]))
    rw [acceptanceOrder_concat, orderStep_passive he]
    exact h.order

theorem polled (h : Lists s) : Lists { s.emit .polled with disconnectedSockets := [] } := by
  refine ⟨h.receive_eq, h.sockets_nodup, h.send_nodup, List.nodup_nil, fun q hq ↦ ?_, by nofun,
    fun q ↦ ?_, acceptanceOrder_concat s.log .polled ▸ h.order⟩
  · exact (h.send_known q hq).mono (fun _ hq' ↦ hq') (List.prefix_append _ _)
  · show q ∈ [] ↔ marked q (s.log ++ [_])
    rw [marked_concat]
    simp [markStep]

end Lists

theorem dispatch_cases {s : Server} {event : EpollEvent} (b : Bool)
    (hp : event.ptr ∈ s.receiveSockets ∨ event.ptr = .listener) :
    (Server.dispatch (b, s) event).2 = s ∨
    (event.ptr ≠ .listener ∧ (Server.dispatch (b, s) event).2 = { s.emit (.reported event.ptr) with
      disconnectedSockets := addUnique s.disconnectedSockets event.ptr }) ∨
    (event.ptr ≠ .listener ∧ (Server.dispatch (b, s) event).2 =
      { s with sendSockets := addUnique s.sendSockets event.ptr }) ∨
    (event.ptr = .listener ∧ (Server.dispatch (b, s) event).2 = { s.emit .listenerWritable with
      sendSockets := addUnique s.sendSockets event.ptr }) := by
  obtain ⟨p, err, hup, readable, writable⟩ := event
  dsimp only at hp ⊢
  unfold Server.dispatch
  dsimp only
  by_cases hnull : p = .null
  · exact .inl (by rw [if_pos hnull])
  rw [if_neg hnull]
  by_cases hbad : (err || hup) = true
  · by_cases hl : p = .listener
    · exact .inl (by rw [if_pos hbad, if_neg (not_not.2 hl)])
    · exact .inr (.inl ⟨hl, by rw [if_pos hbad, if_pos hl]⟩)
  rw [if_neg hbad]
  by_cases hl : p = .listener
  · subst hl
    cases readable <;> cases writable <;> simp [Server.emit]
  · have hmem : addUnique s.receiveSockets p = s.receiveSockets :=
      addUnique_of_mem (hp.resolve_right hl)
    cases readable <;> cases writable <;> simp [hl, hmem]

namespace Inv

variable {s : Server} {p : Ptr}

theorem dispatch (h : Inv s) {event : EpollEvent}
    (hp : event.ptr ∈ s.sockets ∨ event.ptr = .listener) (b : Bool) :
    Inv (Server.dispatch (b, s) event).2 := by
  rw [← h.lists.receive_eq] at hp
  rcases dispatch_cases b hp with he | ⟨hl, he⟩ | ⟨hl, he⟩ | ⟨hl, he⟩ <;> rw [he]
  · exact h
  · rw [h.lists.receive_eq] at hp
    exact ⟨h.sound, h.lists.reported (hp.resolve_right hl)⟩
  · rw [h.lists.receive_eq] at hp
    exact ⟨h.sound, h.lists.writable (.inl (hp.resolve_right hl))⟩
  · refine ⟨h.sound, (h.lists.emit (e := .listenerWritable) trivial).writable (.inr ⟨hl, ?_⟩)⟩
    exact List.mem_append_right _ (List.mem_singleton_self _)

theorem serve (h : Inv s) (hp : s.known p) (env : RoundEnv) :
    Inv (s.serve env p).2 ∧
      Served p (s.callSocket env p).1 ((s.callSocket env p).2.flagged p) s (s.serve env p).2 := by
  have hs := serve_served env h.sound hp.holder
  exact ⟨⟨hs.sound, h.lists.served hp hs⟩, hs⟩

theorem runOps (h : Inv s) (ops : List (ℕ × SocketOp)) : Inv (s.runOps ops) :=
  ⟨h.sound.runOps ops, h.lists.quiet (.runOps ops s)⟩

theorem emit (h : Inv s) {e : Event} (he : e.passive) : Inv (s.emit e) :=
  ⟨h.sound, h.lists.emit he⟩

end Inv

end LowLatency.TCPServer
