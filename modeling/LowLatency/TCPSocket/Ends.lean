import LowLatency.TCPSocket.Link

namespace LowLatency.TCPSocket

open Function

section Frame

/-- What one end may do to the link apart from the channels. -/
structure OwnEnd (x : Side) (l l' : Link) : Prop where
  socket : l'.socket x.other = l.socket x.other
  taken : l'.taken x.other = l.taken x.other
  accepted : l'.accepted x.other = l.accepted x.other
  fd : (l'.socket x).fd = (l.socket x).fd
  grows : l.accepted x <+: l'.accepted x

variable {x : Side} {l l' l'' : Link}

theorem OwnEnd.refl (x : Side) (l : Link) : OwnEnd x l l :=
  ⟨rfl, rfl, rfl, rfl, List.prefix_rfl⟩

theorem OwnEnd.trans (h : OwnEnd x l l') (h' : OwnEnd x l' l'') : OwnEnd x l l'' where
  socket := h'.socket.trans h.socket
  taken := h'.taken.trans h.taken
  accepted := h'.accepted.trans h.accepted
  fd := h'.fd.trans h.fd
  grows := h.grows.trans h'.grows

theorem OwnEnd.set {s : Socket} (hfd : s.fd = (l.socket x).fd) :
    OwnEnd x l ((Link.place x).set s l) where
  socket := update_of_ne (Side.other_ne x) _ _
  taken := rfl
  accepted := rfl
  fd := (congrArg Socket.fd (update_self ..)).trans hfd
  grows := List.prefix_rfl

theorem OwnEnd.send (x : Side) (data : Data) (l : Link) : OwnEnd x l (l.send x data) := by
  have hfd := (send_frame (l.socket x) data).1.fd
  unfold Link.send
  constructor
  · exact update_of_ne (Side.other_ne x) _ _
  · rfl
  · dsimp only
    split
    · exact update_of_ne (Side.other_ne x) _ _
    · rfl
  · dsimp only
    rw [update_self, hfd]
  · dsimp only
    split
    · rw [update_self]
      exact List.prefix_append _ _
    · exact List.prefix_rfl

theorem OwnEnd.take (x : Side) (n : ℕ) (l : Link) : OwnEnd x l (l.take x n) where
  socket := update_of_ne (Side.other_ne x) _ _
  taken := update_of_ne (Side.other_ne x) _ _
  accepted := rfl
  fd := by simp only [Link.take, update_self]
  grows := List.prefix_rfl

theorem OwnEnd.recvCallback (x : Side) (ops : List CallbackOp) (l : Link) :
    OwnEnd x l (l.recvCallback x ops) := by
  induction ops generalizing l with
  | nil => exact .refl x l
  | cons op ops ih =>
    cases op with
    | take n => exact (OwnEnd.take x n l).trans (ih _)
    | send data => exact (OwnEnd.send x data l).trans (ih _)

theorem link_call_own (x : Side) (io : Io) (ops : List CallbackOp) (l : Link) :
    OwnEnd x l (TCPSocket.sendAndRecv (Link.place x) io (fun _ ↦ Link.recvCallback x ops) l).2 ∧
      (TCPSocket.sendAndRecv (Link.place x) io (fun _ ↦ Link.recvCallback x ops) l).2.channel =
        l.channel := by
  have hsplit := sendAndRecv_split (Link.place x) io (fun _ ↦ Link.recvCallback x ops) l
    (fun u v ↦ OwnEnd x u v ∧ v.channel = u.channel) (fun u ↦ ⟨.refl x u, rfl⟩)
    (fun h h' ↦ ⟨h.1.trans h'.1, h'.2.trans h.2⟩) (fun u s hfd ↦ ⟨.set hfd, rfl⟩)
  rcases hsplit with ⟨-, hall⟩ | ⟨-, t, w, hbefore, hbehind⟩
  · exact hall
  · have hcallback := OwnEnd.recvCallback x ops w
    exact ⟨(hbefore.1.trans hcallback).trans hbehind.1,
      (hbehind.2.trans (callback_channel x ops w)).trans hbefore.2⟩

theorem OwnEnd.sendAndRecv (x : Side) (io : Io) (ops : List CallbackOp) (l : Link) :
    OwnEnd x l (l.sendAndRecv x io ops) := by
  have hown := (link_call_own x io ops l).1
  exact ⟨hown.socket, hown.taken, hown.accepted, hown.fd, hown.grows⟩

def Link.record (x : Side) (io : Io) (ops : List CallbackOp) (l : Link) : Record :=
  (TCPSocket.sendAndRecv (Link.place x) io (fun _ ↦ Link.recvCallback x ops) l).1

theorem sendAndRecv_channel (x : Side) (io : Io) (ops : List CallbackOp) (l : Link) :
    (l.sendAndRecv x io ops).channel = update
      (update l.channel x.other
        ((l.channel x.other).drop (l.record x io ops).receivedBytes.length))
      x (l.channel x ++ acceptedBytes (l.record x io ops).sends) := by
  simp only [Link.sendAndRecv, Link.record, (link_call_own x io ops l).2]

end Frame

section Flows

variable {x : Side} {l l' : Link}

theorem OwnEnd.inflow (h : OwnEnd x l l') (hl : Balanced l l.channel)
    (hl' : Balanced l' l'.channel) :
    l'.taken x ++ (l'.socket x).unread ++ l'.channel x.other =
      l.taken x ++ (l.socket x).unread ++ l.channel x.other := by
  have hstream := hl.stream x.other
  have hstream' := hl'.stream x.other
  rw [h.socket, h.accepted, ← hstream, Side.other_other] at hstream'
  exact List.append_cancel_right hstream'

theorem record_received_le {io : Io} (ops : List CallbackOp)
    (h : io.recv.Permitted (l.channel x.other) (l.closed x.other)) :
    (l.record x io ops).receivedBytes <+: l.channel x.other := by
  have hget : (Link.place x).get l = l.socket x := rfl
  unfold Link.record
  by_cases hfd : (l.socket x).fd < 0
  · rw [sendAndRecv_closed _ _ _ _ (hget ▸ hfd)]
    exact List.nil_prefix
  by_cases hfull : (l.socket x).nextRcvValidIndex ≥ tcpBufferSize
  · rw [sendAndRecv_full _ _ _ _ (hget ▸ hfd) (hget ▸ hfull)]
    exact List.nil_prefix
  obtain ⟨l₁, -, hcall⟩ := sendAndRecv_open (Link.place x) io (fun _ ↦ Link.recvCallback x ops) l
    (hget ▸ hfd) (hget ▸ hfull)
  rw [hcall]
  exact receive_permitted h

theorem sendAndRecv_flows {io : Io} (ops : List CallbackOp) (hl : Balanced l l.channel)
    (h : io.recv.Permitted (l.channel x.other) (l.closed x.other)) :
    (l.sendAndRecv x io ops).taken x ++ ((l.sendAndRecv x io ops).socket x).unread =
        l.taken x ++ (l.socket x).unread ++ (l.record x io ops).receivedBytes ∧
      (l.sendAndRecv x io ops).channel x =
        l.channel x ++ acceptedBytes (l.record x io ops).sends := by
  have hflow := (OwnEnd.sendAndRecv x io ops l).inflow hl (hl.sendAndRecv x io ops h)
  have hle := record_received_le ops h
  rw [sendAndRecv_channel, update_self]
  rw [sendAndRecv_channel, update_of_ne (Side.other_ne x), update_self] at hflow
  refine ⟨?_, rfl⟩
  have hsplit := List.prefix_iff_eq_append.1 hle
  refine List.append_cancel_right (hflow.trans ?_)
  rw [List.append_assoc _ (l.record x io ops).receivedBytes, hsplit]

end Flows

end LowLatency.TCPSocket
