import LowLatency.TCPServer.Network
import LowLatency.TCPSocket.Delivery

namespace LowLatency.TCPServer

open Library.Words Library.Fairness SocketUtils TCPSocket Function

section Run

variable {a : ℕ} {n n' : Network}

theorem NetStep.link (h : NetStep a n n') : Relation.ReflGen LinkStep n.link n'.link := by
  cases h with
  | poll env _ => exact .refl
  | sendAndRecv env ops _ _ hrecv => exact .single (.sendAndRecv .b _ ops hrecv)
  | peer h =>
    cases h with
    | send data => exact .single (.send .a data)
    | sendAndRecv io ops hrecv => exact .single (.sendAndRecv .a io ops hrecv)
    | close => exact .single (.close .a)

theorem network_reaches {run : ℕ → Network} (hsteps : ∀ k, NetStep a (run k) (run (k + 1)))
    (k : ℕ) : Relation.ReflTransGen (NetStep a) (run 0) (run k) := by
  induction k with
  | zero => exact .refl
  | succ k ih => exact ih.tail (hsteps k)

theorem accepted_ready {memory : Ptr → Socket} {history : List Op} {env : PollEnv}
    (hnot : .client a ∉ (run memory history).sockets)
    (hin : .client a ∈ (run memory (history ++ [.poll env])).sockets) {fd : ℤ} (hfd : 0 ≤ fd)
    (sendBuffer rcvBuffer : ℕ → Byte) :
    (Network.accepted a (run memory (history ++ [.poll env])) fd sendBuffer
      rcvBuffer).link.Ready := by
  obtain ⟨-, hopen, buffer, buffer', fd', hsocket⟩ := run_fresh hnot hin
  refine ⟨(network_coupled hnot hin .refl).balanced, fun x ↦ ?_, fun x ↦ ?_⟩
  · cases x with
    | a => exact hfd
    | b => exact hopen
  · cases x with
    | a => rfl
    | b => exact congrArg (·.nextRcvValidIndex) hsocket

end Run

/-- Nothing gets stuck between a client of a server and its peer, whatever the
other clients do, as long as the server keeps the client: if the callbacks of
both ends consume what they are shown, and the rounds of the server and the
calls of the peer come again and again when the kernel is ready for them, then
the server receives whatever the peer has been able to queue, and the peer
takes whatever the server has sent or queued for the client. -/
theorem fair_network_delivers (memory : Ptr → Socket) (history : List Op) (env : PollEnv)
    {a : ℕ} (hnot : .client a ∉ (run memory history).sockets)
    (hin : .client a ∈ (run memory (history ++ [.poll env])).sockets)
    {fd : ℤ} (hfd : 0 ≤ fd) (sendBuffer rcvBuffer : ℕ → Byte) {net : ℕ → Network}
    (hstart : net 0 =
      Network.accepted a (run memory (history ++ [.poll env])) fd sendBuffer rcvBuffer)
    (hsteps : ∀ k, NetStep a (net k) (net (k + 1)))
    (hclient : ∀ k, ((net k).server.memory (.client a)).nextRcvValidIndex = 0)
    (hpeer : ∀ k, ((net k).link.socket .a).nextRcvValidIndex = 0)
    (hfair : FairTo fun x k ↦ ServedEnd x (net k).link (net (k + 1)).link) (k : ℕ) :
    (∃ m new, k ≤ m ∧
      (net m).server.log = (run memory (history ++ [.poll env])).log ++ new ∧
      (net k).link.accepted .a <+: receivedFrom (.client a) new) ∧
    ∃ old m, k ≤ m ∧
      (net k).server.log = (run memory (history ++ [.poll env])).log ++ old ∧
      sentTo (.client a) old ++ ((net k).server.memory (.client a)).pending <+:
        (net m).link.taken .a := by
  have hcoupled (k : ℕ) : Coupled a (run memory (history ++ [.poll env])).log (net k) :=
    network_coupled hnot hin (hstart ▸ network_reaches hsteps k)
  have hrun : DrainedRun fun k ↦ (net k).link := by
    refine ⟨?_, fun k ↦ (hsteps k).link, ?_⟩
    · rw [hstart]
      exact accepted_ready hnot hin hfd sendBuffer rcvBuffer
    · intro k x
      cases x with
      | a => exact hpeer k
      | b =>
        rw [(hcoupled k).socket]
        exact hclient k
  constructor
  · obtain ⟨m, hkm, hm⟩ := hrun.delivers hfair .a k
    obtain ⟨new, hlog, -, hreceived⟩ := (hcoupled m).flows
    refine ⟨m, new, hkm, hlog, hm.trans ?_⟩
    rw [hreceived]
    exact List.prefix_append _ _
  · obtain ⟨m, hkm, hm⟩ := hrun.delivers hfair .b k
    obtain ⟨old, hlog, hsent, -⟩ := (hcoupled k).flows
    refine ⟨old, m, hkm, hlog, ?_⟩
    have hstream := (hcoupled k).balanced.stream .b
    rw [hsent, ← (hcoupled k).socket]
    exact hstream ▸ hm

section Exchange

def exchangeStep (k : ℕ) (n : Network) : Network :=
  match k % 3 with
  | 0 => { n with link := n.link.send .a (.bytes [1, 2]) }
  | 1 => { n with link := n.link.sendAndRecv .a (dripping .a n.link) [.take tcpBufferSize] }
  | _ =>
    ⟨n.server.sendAndRecv (scripted (dripping .b n.link)
        [.take tcpBufferSize, .send (.bytes [8])] n.server),
      n.link.sendAndRecv .b (dripping .b n.link) [.take tcpBufferSize, .send (.bytes [8])]⟩

def exchange (k : ℕ) : Network :=
  states exchangeStep id
    (Network.accepted 0 (run blank visited) 7 (fun _ ↦ 0) (fun _ ↦ 0)) k

theorem exchangeStep_spec (k : ℕ) {n : Network} (h : n.link.Ready) :
    NetStep 0 n (exchangeStep k n) ∧
      ∀ x, ((exchangeStep k n).link.socket x).nextRcvValidIndex = 0 := by
  unfold exchangeStep
  split
  · refine ⟨.peer (.send _), fun x ↦ ?_⟩
    cases x with
    | a =>
      simp only [Link.send, update_self]
      exact (send_frame (n.link.socket .a) _).1.index.trans (h.drained .a)
    | b => exact h.drained .b
  · exact ⟨.peer (.sendAndRecv _ _ (dripping_permitted .a n.link)), fun x ↦
      sendAndRecv_drained h .a x _ (by simp)⟩
  · exact ⟨scripted_step _ _ n (dripping_permitted .b n.link), fun x ↦
      sendAndRecv_drained h .b x _ (by simp)⟩

theorem exchange_ready (k : ℕ) : (exchange k).link.Ready := by
  have hstart : (exchange 0).link.Ready :=
    accepted_ready visited_new visited_client (by decide) _ _
  induction k with
  | zero => exact hstart
  | succ k ih =>
    obtain ⟨hs, hdrained⟩ := exchangeStep_spec k ih
    exact ih.next hs.link hdrained

theorem exchange_fair :
    FairTo fun x k ↦ ServedEnd x (exchange k).link (exchange (k + 1)).link := by
  intro x k
  cases x with
  | a =>
    refine ⟨3 * k + 1, by omega, dripping .a _, [.take tcpBufferSize],
      dripping_permitted .a _, dripping_live .a _, ?_⟩
    have hk : (3 * k + 1) % 3 = 1 := by omega
    simp only [exchange, states, exchangeStep, id_eq, hk]
  | b =>
    refine ⟨3 * k + 2, by omega, dripping .b _, [.take tcpBufferSize, .send (.bytes [8])],
      dripping_permitted .b _, dripping_live .b _, ?_⟩
    have hk : (3 * k + 2) % 3 = 2 := by omega
    simp only [exchange, states, exchangeStep, id_eq, hk]

theorem fair_network_delivers_exchange :
    ∃ m new, (exchange m).server.log = (run blank visited).log ++ new ∧
      [1, 2] <+: receivedFrom (.client 0) new := by
  have hsteps (k : ℕ) := (exchangeStep_spec k (exchange_ready k)).1
  have hcoupled (k : ℕ) : Coupled 0 (run blank visited).log (exchange k) :=
    network_coupled visited_new visited_client (network_reaches hsteps k)
  obtain ⟨⟨m, new, -, hlog, hm⟩, -⟩ := fair_network_delivers blank [listening] welcoming
    visited_new visited_client (by decide) (fun _ ↦ 0) (fun _ ↦ 0)
    (show exchange 0 = Network.accepted 0 (run blank visited) 7 _ _ from rfl) hsteps
    (fun k ↦ (hcoupled k).socket ▸ (exchange_ready k).drained .b)
    (fun k ↦ (exchange_ready k).drained .a) exchange_fair 1
  exact ⟨m, new, hlog, hm⟩

end Exchange

end LowLatency.TCPServer
