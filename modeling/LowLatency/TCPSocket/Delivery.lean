import LowLatency.Library.Fairness
import LowLatency.TCPSocket.Ends

namespace LowLatency.TCPSocket

open Library.Words Library.ByteBuffer Library.Fairness Function

/-- The kernel has some of the incoming bytes ready if there are any, and takes
some bytes if none of the earlier ones is left on the way. -/
structure Live (x : Side) (l : Link) (io : Io) : Prop where
  delivers : l.channel x.other ≠ [] → io.recv.delivers = true
  accepts : l.channel x = [] → ∃ n, io.send 0 = .sent (n + 1)

/-- A `sendAndRecv()` of one end that the kernel is ready for. -/
def ServedEnd (x : Side) (l l' : Link) : Prop :=
  ∃ io ops, io.recv.Permitted (l.channel x.other) (l.closed x.other) ∧ Live x l io ∧
    l' = l.sendAndRecv x io ops

/-- Both ends are open, and the callbacks have left nothing in a receive buffer. -/
structure Link.Ready (l : Link) : Prop where
  balanced : Balanced l l.channel
  fd : ∀ x, 0 ≤ (l.socket x).fd
  drained : ∀ x, (l.socket x).nextRcvValidIndex = 0

section Call

variable {x : Side} {l : Link} {io : Io}

theorem flush_accepts {s : Socket} {kernel : ℕ → SendResult} {n : ℕ} (hs : s.Bounded)
    (hpos : 0 < s.nextSendValidIndex) (hk : kernel 0 = .sent (n + 1)) :
    acceptedBytes (s.flush kernel).1 ≠ [] := by
  have hlt := Nat.lt_of_le_of_lt hs.send tcpBufferSize_lt
  obtain ⟨-, hle, -⟩ := flushLoop_spec s.sendBuffer kernel hlt s.nextSendValidIndex 0 0
    (Nat.zero_le _) _ rfl
  rw [(flush_fields kernel s _ rfl hle).1]
  obtain ⟨m, hm⟩ := Nat.exists_eq_succ_of_ne_zero hpos.ne'
  have hsent : min (n + 1) (m + 1) ≠ 0 := by omega
  rw [hm, flushLoop, if_pos (Nat.succ_pos m), hk]
  simp only [sizeSub_eq (Nat.zero_le (m + 1)), Nat.sub_zero, if_neg hsent, acceptedBytes,
    List.flatMap_cons]
  intro hnil
  have hlen := congrArg List.length (List.append_eq_nil_iff.1 hnil).1
  simp only [List.length_take, slice_length, List.length_nil] at hlen
  omega

theorem pending_ne_nil {s : Socket} : s.pending ≠ [] ↔ 0 < s.nextSendValidIndex := by
  rw [← List.length_pos_iff, Socket.pending, slice_length]

theorem Link.Ready.room (h : l.Ready) (x : Side) : (l.socket x).nextRcvValidIndex < tcpBufferSize := by
  rw [h.drained x]
  decide

theorem OwnEnd.pending {l' : Link} {channel' : Side → List Byte} (hown : OwnEnd x l l')
    (h : Balanced l l.channel) (h' : Balanced l' channel') (hchannel : channel' x = l.channel x) :
    (l.socket x).pending <+: (l'.socket x).pending := by
  have hstream := h.stream x
  have hstream' := h'.stream x
  rw [hown.taken, hown.socket, hchannel] at hstream'
  have hgrows := hown.grows
  rw [← hstream, ← hstream'] at hgrows
  exact (List.prefix_append_right_inj _).1 hgrows

theorem record_receives (h : l.Ready) (ops : List CallbackOp) (hk : io.recv.delivers = true) :
    (l.record x io ops).receivedBytes ≠ [] := by
  obtain ⟨l₁, -, hcall⟩ := sendAndRecv_open (Link.place x) io (fun _ ↦ Link.recvCallback x ops) l
    (not_lt.2 (h.fd x)) (not_le.2 (h.room x))
  rw [Link.record, hcall]
  show ((l.socket x).receive io.recv).1.bytes ≠ []
  rw [← (receive_spec (h.balanced.bounded x) io.recv).2.2.2, (receive_ends (h.room x) io.recv).2]
  exact hk

theorem record_sends (h : l.Ready) (ops : List CallbackOp) {n : ℕ}
    (hp : io.recv.Permitted (l.channel x.other) (l.closed x.other))
    (hk : io.send 0 = .sent (n + 1)) (hpending : (l.socket x).pending ≠ []) :
    acceptedBytes (l.record x io ops).sends ≠ [] := by
  obtain ⟨l₁, hl₁, hcall⟩ := sendAndRecv_open (Link.place x) io
    (fun _ ↦ Link.recvCallback x ops) l (not_lt.2 (h.fd x)) (not_le.2 (h.room x))
  have hset : OwnEnd x l ((Link.place x).set ((l.socket x).receive io.recv).2.2 l) :=
    .set (receive_frame (l.socket x) io.recv).1
  have hrecv := h.balanced.receive x io.recv (receive_permitted hp)
  obtain ⟨hbal, hown⟩ : Balanced l₁ (update l.channel x.other ((l.channel x.other).drop
      ((l.socket x).receive io.recv).1.bytes.length)) ∧ OwnEnd x l l₁ := by
    rcases hl₁ with ⟨-, rfl⟩ | ⟨t, -, rfl⟩
    · exact ⟨hrecv, hset⟩
    · exact ⟨hrecv.callback x ops, hset.trans (.recvCallback x ops _)⟩
  have hgrown := hown.pending h.balanced hbal (update_of_ne (Side.ne_other x) _ _)
  have hpos : 0 < (l₁.socket x).nextSendValidIndex :=
    pending_ne_nil.1 fun hnil ↦ hpending (List.prefix_nil.1 (hnil ▸ hgrown))
  rw [Link.record, hcall]
  exact flush_accepts (hbal.bounded x) hpos hk

end Call

section Flow

variable {x : Side} {l l' : Link}

theorem LinkStep.fd (hs : LinkStep l l') (x : Side) : (l'.socket x).fd = (l.socket x).fd := by
  have hown {y : Side} (h : OwnEnd y l l') : (l'.socket x).fd = (l.socket x).fd := by
    rcases Side.eq_or_eq_other y x with rfl | rfl
    · exact h.fd
    · rw [h.socket]
  cases hs with
  | send y data => exact hown (.send y data l)
  | sendAndRecv y io ops _ => exact hown (.sendAndRecv y io ops l)
  | close y => rfl

theorem Link.Ready.conserves (h : l.Ready) (x : Side) :
    (l.taken x.other).length + (l.channel x).length + (l.socket x).pending.length =
      (l.accepted x).length := by
  have hunread : (l.socket x.other).unread = [] := by
    rw [Socket.unread, h.drained x.other, slice_zero]
  rw [← h.balanced.stream x, hunread]
  simp only [List.append_nil, List.length_append]

theorem Link.Ready.inflow {y : Side} (h : l.Ready) (h' : l'.Ready) (hown : OwnEnd y l l') :
    (l'.taken y).length + (l'.channel y.other).length =
      (l.taken y).length + (l.channel y.other).length := by
  have hflow := congrArg List.length (hown.inflow h.balanced h'.balanced)
  have hunread : (l.socket y).unread = [] := by rw [Socket.unread, h.drained y, slice_zero]
  have hunread' : (l'.socket y).unread = [] := by rw [Socket.unread, h'.drained y, slice_zero]
  rw [hunread, hunread'] at hflow
  simpa only [List.append_nil, List.length_append] using hflow

/-- A step puts bytes of one direction on their way, or takes some off it. -/
theorem LinkStep.flows (hs : LinkStep l l') (h : l.Ready) (h' : l'.Ready) (x : Side) :
    (l'.taken x.other).length = (l.taken x.other).length ∧
        (l.channel x).length ≤ (l'.channel x).length ∨
      (l'.taken x.other).length + (l'.channel x).length =
          (l.taken x.other).length + (l.channel x).length ∧
        (l'.channel x).length ≤ (l.channel x).length := by
  cases hs with
  | send y data => exact .inl ⟨rfl, le_rfl⟩
  | close y => exact .inl ⟨rfl, le_rfl⟩
  | sendAndRecv y io ops hp =>
    have hown := OwnEnd.sendAndRecv y io ops l
    rcases Side.eq_or_eq_other x y with rfl | rfl
    · refine .inl ⟨congrArg _ hown.taken, ?_⟩
      rw [sendAndRecv_channel, update_self, List.length_append]
      exact Nat.le_add_right _ _
    · have hinflow := h.inflow h' hown
      rw [Side.other_other] at hinflow
      refine .inr ⟨hinflow, ?_⟩
      rw [sendAndRecv_channel, Side.other_other, update_of_ne (Side.ne_other x), update_self,
        List.length_drop]
      exact Nat.sub_le _ _

theorem LinkStep.accepted_grows (hs : LinkStep l l') (x : Side) :
    l.accepted x <+: l'.accepted x := by
  have hown {y : Side} (h : OwnEnd y l l') : l.accepted x <+: l'.accepted x := by
    rcases Side.eq_or_eq_other y x with rfl | rfl
    · exact h.grows
    · rw [h.accepted]
  cases hs with
  | send y data => exact hown (.send y data l)
  | sendAndRecv y io ops _ => exact hown (.sendAndRecv y io ops l)
  | close y => exact List.prefix_rfl

theorem ServedEnd.sender (hs : ServedEnd x l l') (h : l.Ready) (hnil : l.channel x = [])
    (hlt : (l.taken x.other).length < (l.accepted x).length) :
    (l'.taken x.other).length = (l.taken x.other).length ∧ 0 < (l'.channel x).length := by
  obtain ⟨io, ops, hp, hlive, rfl⟩ := hs
  obtain ⟨n, hn⟩ := hlive.accepts hnil
  have hsum := h.conserves x
  rw [hnil, List.length_nil] at hsum
  have hpending : (l.socket x).pending ≠ [] := by
    rw [← List.length_pos_iff]
    omega
  refine ⟨congrArg _ (OwnEnd.sendAndRecv x io ops l).taken, ?_⟩
  have hsent := List.length_pos_iff.2 (record_sends h ops hp hn hpending)
  rw [sendAndRecv_channel, update_self, List.length_append]
  omega

theorem ServedEnd.receiver (hs : ServedEnd x.other l l') (h : l.Ready) (h' : l'.Ready)
    (hne : l.channel x ≠ []) :
    (l'.taken x.other).length + (l'.channel x).length =
        (l.taken x.other).length + (l.channel x).length ∧
      (l'.channel x).length < (l.channel x).length := by
  obtain ⟨io, ops, hp, hlive, rfl⟩ := hs
  have hdelivers := hlive.delivers
  rw [Side.other_other] at hdelivers
  have hinflow := h.inflow h' (OwnEnd.sendAndRecv x.other io ops l)
  rw [Side.other_other] at hinflow
  refine ⟨hinflow, ?_⟩
  have hreceived := List.length_pos_iff.2 (record_receives (x := x.other) h ops (hdelivers hne))
  have hpos := List.length_pos_iff.2 hne
  rw [sendAndRecv_channel, Side.other_other, update_of_ne (Side.ne_other x), update_self,
    List.length_drop]
  omega

end Flow

section Rank

/-- How far the first `n` bytes of a direction are from being sent and from
being taken. -/
def Link.lag (x : Side) (n : ℕ) (l : Link) : ℕ :=
  (n - (l.taken x.other).length) + (n - ((l.taken x.other).length + (l.channel x).length))

def Link.mover (x : Side) (l : Link) : Side := if l.channel x = [] then x else x.other

structure DrainedRun (run : ℕ → Link) : Prop where
  start : (run 0).Ready
  steps : ∀ k, Relation.ReflGen LinkStep (run k) (run (k + 1))
  drained : ∀ k x, ((run k).socket x).nextRcvValidIndex = 0

variable {run : ℕ → Link} {x : Side} {n : ℕ}

theorem Link.Ready.next {l l' : Link} (h : l.Ready) (hs : Relation.ReflGen LinkStep l l')
    (hdrained : ∀ x, (l'.socket x).nextRcvValidIndex = 0) : l'.Ready := by
  rcases (Relation.reflGen_iff _ _ _).1 hs with rfl | hs
  · exact h
  · exact ⟨hs.balanced h.balanced, fun x ↦ (hs.fd x).symm ▸ h.fd x, hdrained⟩

theorem DrainedRun.ready (h : DrainedRun run) (k : ℕ) : (run k).Ready := by
  induction k with
  | zero => exact h.start
  | succ k ih => exact ih.next (h.steps k) (h.drained (k + 1))

theorem DrainedRun.accepted_grows (h : DrainedRun run) (x : Side) {k m : ℕ} (hkm : k ≤ m) :
    (run k).accepted x <+: (run m).accepted x := by
  induction m, hkm using Nat.le_induction with
  | base => exact List.prefix_rfl
  | succ m hkm ih =>
    rcases (Relation.reflGen_iff _ _ _).1 (h.steps m) with heq | hs
    · exact heq ▸ ih
    · exact ih.trans (hs.accepted_grows x)

theorem mover_congr {l l' : Link} (h : (l.channel x).length = 0 ↔ (l'.channel x).length = 0) :
    l'.mover x = l.mover x := by
  rw [List.length_eq_zero_iff, List.length_eq_zero_iff] at h
  simp only [Link.mover, h]

theorem DrainedRun.ranking (h : DrainedRun run) {start : ℕ}
    (hn : n ≤ ((run start).accepted x).length) :
    Ranking run start (fun y k ↦ ServedEnd y (run k) (run (k + 1)))
      (fun l ↦ n ≤ (l.taken x.other).length) (Link.lag x n) (Link.mover x) where
  lowers k hk hd hs := by
    have hle := (h.accepted_grows x hk).length_le
    unfold Link.mover at hs
    unfold Link.lag
    split at hs
    next hnil =>
      obtain ⟨htaken, hpos⟩ := hs.sender (h.ready k) hnil (by omega)
      rw [hnil, List.length_nil]
      omega
    next hne =>
      obtain ⟨hsum, hlt⟩ := hs.receiver (h.ready k) (h.ready (k + 1)) hne
      omega
  waits k _ hd := by
    rcases (Relation.reflGen_iff _ _ _).1 (h.steps k) with heq | hs
    · exact .inr ⟨by rw [heq], by rw [heq]⟩
    unfold Link.lag
    rcases hs.flows (h.ready k) (h.ready (k + 1)) x with ⟨htaken, hle⟩ | ⟨hsum, hle⟩
    · by_cases hsent : n ≤ ((run k).taken x.other).length + ((run k).channel x).length
      · exact .inr ⟨by omega, mover_congr (by omega)⟩
      · by_cases hsame : ((run (k + 1)).channel x).length = ((run k).channel x).length
        · exact .inr ⟨by omega, mover_congr (by omega)⟩
        · exact .inl (by omega)
    · by_cases hsame : ((run (k + 1)).channel x).length = ((run k).channel x).length
      · exact .inr ⟨by omega, mover_congr (by omega)⟩
      · exact .inl (by omega)

theorem DrainedRun.delivers (h : DrainedRun run)
    (hfair : FairTo fun y k ↦ ServedEnd y (run k) (run (k + 1))) (x : Side) (k : ℕ) :
    ∃ m, k ≤ m ∧ (run k).accepted x <+: (run m).taken x.other := by
  obtain ⟨m, hkm, hm⟩ := (h.ranking (x := x) le_rfl).reaches hfair
  have htaken : (run m).taken x.other <+: (run m).accepted x := by
    rw [← (h.ready m).balanced.stream x, List.append_assoc, List.append_assoc]
    exact List.prefix_append _ _
  exact ⟨m, hkm, List.prefix_of_prefix_length_le (h.accepted_grows x hkm) htaken hm⟩

end Rank

/-- Between two open sockets nothing gets stuck: if the callbacks consume all
bytes that they are shown, and each end calls `sendAndRecv()` again and again
when the kernel is ready for it, then whatever `send()` has accepted is taken by
the other end some time later, however small the pieces are in which the kernel
accepts and delivers. -/
theorem fair_link_delivers (fd : Side → ℤ) (sendBuffer rcvBuffer : Side → ℕ → Byte)
    (hfd : ∀ x, 0 ≤ fd x) {run : ℕ → Link} (hstart : run 0 = Link.initial fd sendBuffer rcvBuffer)
    (hsteps : ∀ k, LinkStep (run k) (run (k + 1)))
    (hdrained : ∀ k x, ((run k).socket x).nextRcvValidIndex = 0)
    (hfair : FairTo fun x k ↦ ServedEnd x (run k) (run (k + 1))) (x : Side) (k : ℕ) :
    ∃ m, k ≤ m ∧ (run k).accepted x <+: (run m).taken x.other := by
  have hready : (run 0).Ready := by
    rw [hstart]
    exact ⟨initial_balanced fd sendBuffer rcvBuffer, hfd, fun _ ↦ rfl⟩
  have hrun : DrainedRun run := ⟨hready, fun k ↦ .single (hsteps k), hdrained⟩
  exact hrun.delivers hfair x k

section Drain

variable {x : Side} {l : Link}

theorem runOp_index (x : Side) (l : Link) (op : CallbackOp) :
    ((l.runOp x op).socket x).nextRcvValidIndex ≤ (l.socket x).nextRcvValidIndex := by
  cases op with
  | take n =>
    simp only [Link.runOp, Link.take, update_self]
    exact Nat.sub_le _ _
  | send data =>
    simp only [Link.runOp, Link.send, update_self]
    exact (send_frame (l.socket x) data).1.index.le

theorem recvCallback_index (x : Side) (ops : List CallbackOp) (l : Link) :
    ((l.recvCallback x ops).socket x).nextRcvValidIndex ≤ (l.socket x).nextRcvValidIndex := by
  induction ops generalizing l with
  | nil => exact le_rfl
  | cons op ops ih => exact (ih _).trans (runOp_index x l op)

theorem recvCallback_drains {n : ℕ} {ops : List CallbackOp}
    (hle : (l.socket x).nextRcvValidIndex ≤ n) (hmem : .take n ∈ ops) :
    ((l.recvCallback x ops).socket x).nextRcvValidIndex = 0 := by
  induction ops generalizing l with
  | nil => cases hmem
  | cons op ops ih =>
    rcases List.mem_cons.1 hmem with rfl | hmem
    · have hnone : ((l.take x n).socket x).nextRcvValidIndex = 0 := by
        simp only [Link.take, update_self, Nat.min_eq_right hle, Nat.sub_self]
      exact Nat.le_zero.1 ((recvCallback_index x ops (l.take x n)).trans hnone.le)
    · exact ih ((runOp_index x l op).trans hle) hmem

theorem sendAndRecv_drained (h : l.Ready) (x y : Side) (io : Io) {ops : List CallbackOp}
    (hmem : .take tcpBufferSize ∈ ops) :
    ((l.sendAndRecv x io ops).socket y).nextRcvValidIndex = 0 := by
  rcases Side.eq_or_eq_other x y with rfl | rfl
  · obtain ⟨l₁, hl₁, hcall⟩ := sendAndRecv_open (Link.place y) io
      (fun _ ↦ Link.recvCallback y ops) l (not_lt.2 (h.fd y)) (not_le.2 (h.room y))
    have hb := h.balanced.bounded y
    have hdrained : (l₁.socket y).nextRcvValidIndex = 0 := by
      rcases hl₁ with ⟨hnone, rfl⟩ | ⟨t, -, rfl⟩
      · obtain ⟨-, hindex, -, hdue⟩ := receive_spec hb io.recv
        have hnone' : ((l.socket y).receive io.recv).2.1 = none := hnone
        rw [hnone'] at hdue
        have hnil : ((l.socket y).receive io.recv).1.bytes = [] := by simpa using hdue
        rw [h.drained y, hnil] at hindex
        exact (congrArg Socket.nextRcvValidIndex ((Link.place y).get_set _ l)).trans hindex
      · apply recvCallback_drains _ hmem
        exact (congrArg Socket.nextRcvValidIndex ((Link.place y).get_set _ l)).trans_le
          (receive_bounded hb io.recv).rcv
    simp only [Link.sendAndRecv, hcall]
    simp only [Link.place, update_self]
    exact (flush_frame io.send (l₁.socket y)).index.trans hdrained
  · rw [(OwnEnd.sendAndRecv x io ops l).socket]
    exact h.drained x.other

end Drain

section Drip

def dripping (x : Side) (l : Link) : Io where
  recv := if l.channel x.other = [] then .error .eagain
    else .received ((l.channel x.other).take 1) []
  send i := if i = 0 then .sent 1 else .error .eagain

theorem dripping_permitted (x : Side) (l : Link) :
    (dripping x l).recv.Permitted (l.channel x.other) (l.closed x.other) := by
  unfold dripping
  dsimp only
  split
  next => trivial
  next hne =>
    refine ⟨List.take_prefix _ _, fun hnil ↦ ?_⟩
    simp [hne] at hnil

theorem dripping_live (x : Side) (l : Link) : Live x l (dripping x l) where
  delivers hne := by simp [dripping, hne, RecvResult.delivers]
  accepts _ := ⟨0, rfl⟩

def chatStep (k : ℕ) (l : Link) : Link :=
  match k % 3 with
  | 0 => l.send .a (.bytes [1, 2, 3])
  | 1 => l.sendAndRecv .a (dripping .a l) [.take tcpBufferSize]
  | _ => l.sendAndRecv .b (dripping .b l) [.send (.bytes [4]), .take tcpBufferSize]

def chat (k : ℕ) : Link :=
  states chatStep id (Link.initial (fun _ ↦ 3) (fun _ _ ↦ 0) (fun _ _ ↦ 0)) k

theorem chatStep_spec (k : ℕ) {l : Link} (h : l.Ready) :
    LinkStep l (chatStep k l) ∧ ∀ x, ((chatStep k l).socket x).nextRcvValidIndex = 0 := by
  unfold chatStep
  split
  · refine ⟨.send .a _, fun x ↦ ?_⟩
    cases x with
    | a =>
      simp only [Link.send, update_self]
      exact (send_frame (l.socket .a) _).1.index.trans (h.drained .a)
    | b => exact h.drained .b
  · exact ⟨.sendAndRecv .a _ _ (dripping_permitted .a l), fun x ↦
      sendAndRecv_drained h .a x _ (by simp)⟩
  · exact ⟨.sendAndRecv .b _ _ (dripping_permitted .b l), fun x ↦
      sendAndRecv_drained h .b x _ (by simp)⟩

theorem chat_ready (k : ℕ) : (chat k).Ready := by
  refine states_invariant (fun i l h ↦ ?_) ?_ id k
  · obtain ⟨hs, hdrained⟩ := chatStep_spec i h
    exact h.next (.single hs) hdrained
  · exact ⟨initial_balanced _ _ _, fun x ↦ by cases x <;> decide, fun _ ↦ rfl⟩

theorem chat_fair : FairTo fun x k ↦ ServedEnd x (chat k) (chat (k + 1)) := by
  intro x k
  cases x with
  | a =>
    refine ⟨3 * k + 1, by omega, dripping .a _, [.take tcpBufferSize],
      dripping_permitted .a _, dripping_live .a _, ?_⟩
    have hk : (3 * k + 1) % 3 = 1 := by omega
    simp only [chat, states, chatStep, id_eq, hk]
  | b =>
    refine ⟨3 * k + 2, by omega, dripping .b _, [.send (.bytes [4]), .take tcpBufferSize],
      dripping_permitted .b _, dripping_live .b _, ?_⟩
    have hk : (3 * k + 2) % 3 = 2 := by omega
    simp only [chat, states, chatStep, id_eq, hk]

theorem fair_link_delivers_chat : ∃ m, [1, 2, 3] <+: (chat m).taken .b := by
  have hstart : chat 0 = Link.initial (fun _ ↦ 3) (fun _ _ ↦ 0) (fun _ _ ↦ 0) := rfl
  obtain ⟨m, -, hm⟩ := fair_link_delivers (fun _ ↦ 3) (fun _ _ ↦ 0) (fun _ _ ↦ 0)
    (fun _ ↦ by decide) hstart (fun k ↦ (chatStep_spec k (chat_ready k)).1)
    (fun k ↦ (chat_ready k).drained) chat_fair .a 1
  exact ⟨m, hm⟩

end Drip

end LowLatency.TCPSocket
