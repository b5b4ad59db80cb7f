import LowLatency.TCPSocket.Buffers
import Mathlib.Data.List.Infix
import Mathlib.Logic.Function.Basic
import Mathlib.Logic.Relation

namespace LowLatency.TCPSocket

open Library.Words Library.ByteBuffer Function

inductive Side
  | a
  | b
  deriving DecidableEq

def Side.other : Side → Side
  | .a => .b
  | .b => .a

@[simp] theorem Side.other_other (x : Side) : x.other.other = x := by cases x <;> rfl

@[simp] theorem Side.other_ne (x : Side) : x.other ≠ x := by cases x <;> simp [Side.other]

@[simp] theorem Side.ne_other (x : Side) : x ≠ x.other := (Side.other_ne x).symm

theorem Side.eq_or_eq_other (x y : Side) : y = x ∨ y = x.other := by
  cases x <;> cases y <;> simp [Side.other]

/-- Two sockets and the kernel between them. `channel x` holds the bytes that
`x` has handed over and its peer has not received; `accepted x` is the data of
the `send()` calls of `x` that returned true, and `taken x` what the callbacks
of `x` have consumed, both in order. -/
structure Link where
  socket : Side → Socket
  channel : Side → List Byte
  closed : Side → Bool
  accepted : Side → List Byte
  taken : Side → List Byte

namespace Link

def initial (fd : Side → ℤ) (sendBuffer rcvBuffer : Side → ℕ → Byte) : Link where
  socket x := (Socket.new (sendBuffer x) (rcvBuffer x)).connect (fd x)
  channel _ := []
  closed _ := false
  accepted _ := []
  taken _ := []

def place (x : Side) : Place Link where
  get l := l.socket x
  set s l := { l with socket := update l.socket x s }
  get_set s l := update_self x s l.socket

def send (x : Side) (data : Data) (l : Link) : Link :=
  let (ok, s) := (l.socket x).send data
  { l with
    socket := update l.socket x s
    accepted := if ok then update l.accepted x (l.accepted x ++ data.contents) else l.accepted }

/-- A callback takes the first `n` valid bytes (all, if there are fewer) and
moves the rest to index 0. -/
def take (x : Side) (n : ℕ) (l : Link) : Link :=
  let s := l.socket x
  let k := min n s.nextRcvValidIndex
  { l with
    socket := update l.socket x { s with
      rcvBuffer := move s.rcvBuffer 0 k (s.nextRcvValidIndex - k)
      nextRcvValidIndex := s.nextRcvValidIndex - k }
    taken := update l.taken x (l.taken x ++ slice s.rcvBuffer 0 k) }

end Link

inductive CallbackOp
  | take (n : ℕ)
  | send (data : Data)

def Link.runOp (x : Side) (l : Link) : CallbackOp → Link
  | .take n => l.take x n
  | .send data => l.send x data

def Link.recvCallback (x : Side) (ops : List CallbackOp) (l : Link) : Link :=
  ops.foldl (Link.runOp x) l

def Record.receivedBytes (r : Record) : List Byte := (r.recvmsg.map RecvCall.bytes).getD []

/-- `sendAndRecv()` of one end. What it received leaves the incoming channel and
what the kernel accepted enters the outgoing one. -/
def Link.sendAndRecv (x : Side) (io : Io) (ops : List CallbackOp) (l : Link) : Link :=
  let (r, l) := TCPSocket.sendAndRecv (Link.place x) io (fun _ ↦ Link.recvCallback x ops) l
  let received := update l.channel x.other ((l.channel x.other).drop r.receivedBytes.length)
  { l with channel := update received x (l.channel x ++ acceptedBytes r.sends) }

/-- `recvmsg` delivers a prefix of the incoming channel, and reports the end of
the stream only on an empty, closed one. -/
def RecvResult.Permitted (channel : List Byte) (closed : Bool) : RecvResult → Prop
  | .received bytes _ => bytes <+: channel ∧ (bytes = [] → channel = [] ∧ closed = true)
  | .error _ => True

inductive LinkStep (l : Link) : Link → Prop
  | send (x : Side) (data : Data) : LinkStep l (l.send x data)
  | sendAndRecv (x : Side) (io : Io) (ops : List CallbackOp)
      (h : io.recv.Permitted (l.channel x.other) (l.closed x.other)) :
      LinkStep l (l.sendAndRecv x io ops)
  | close (x : Side) : LinkStep l { l with closed := update l.closed x true }

/-- Where the bytes of each direction are, when `channel` is what lies between
the sockets. The middle of a call is described by another `channel` than the
one the link still shows. -/
structure Balanced (l : Link) (channel : Side → List Byte) : Prop where
  bounded : ∀ x, (l.socket x).Bounded
  stream : ∀ x, l.taken x.other ++ (l.socket x.other).unread ++ channel x ++
    (l.socket x).pending = l.accepted x

section Balanced

variable {l : Link} {channel : Side → List Byte}

theorem Balanced.replace (h : Balanced l channel) (x : Side) {s : Socket}
    {channel' accepted taken : Side → List Byte} (hs : s.Bounded)
    (hout : ∀ p, p ++ channel x ++ (l.socket x).pending = l.accepted x →
      p ++ channel' x ++ s.pending = accepted x)
    (hin : ∀ q, l.taken x ++ (l.socket x).unread ++ channel x.other ++ q = l.accepted x.other →
      taken x ++ s.unread ++ channel' x.other ++ q = accepted x.other)
    (ht : taken x.other = l.taken x.other) :
    Balanced { l with socket := update l.socket x s, accepted := accepted, taken := taken }
      channel' := by
  constructor
  · intro z
    rcases Side.eq_or_eq_other x z with rfl | rfl
    · simpa only [update_self] using hs
    · simpa only [update_of_ne (Side.other_ne x)] using h.bounded x.other
  · intro z
    rcases Side.eq_or_eq_other x z with rfl | rfl
    · simp only [update_self, update_of_ne (Side.other_ne z), ht]
      exact hout _ (h.stream z)
    · simp only [Side.other_other, update_self, update_of_ne (Side.other_ne x)]
      have hstream := h.stream x.other
      rw [Side.other_other] at hstream
      exact hin _ hstream

theorem Balanced.replace_socket (h : Balanced l channel) (x : Side) {s : Socket}
    {channel' : Side → List Byte} (hs : s.Bounded)
    (hout : channel' x ++ s.pending = channel x ++ (l.socket x).pending)
    (hin : s.unread ++ channel' x.other = (l.socket x).unread ++ channel x.other) :
    Balanced ((Link.place x).set s l) channel' := by
  refine h.replace x hs (?_) (?_) rfl
  · intro p hp
    rw [← hp, List.append_assoc, hout, List.append_assoc]
  · intro q hq
    rw [← hq, List.append_assoc (l.taken x), hin]
    simp only [List.append_assoc]

theorem Balanced.send (h : Balanced l channel) (x : Side) (data : Data) :
    Balanced (l.send x data) channel := by
  have hframe := (send_frame (l.socket x) data).1
  have hb := send_bounded (h.bounded x) data
  unfold Link.send
  rcases send_cases (h.bounded x).send data with ⟨hok, hpend, -, -⟩ | ⟨hno, hsame⟩
  · simp only [hok, if_true]
    refine h.replace x hb (?_) (?_) rfl
    · intro p hp
      rw [update_self, ← hp, hpend]
      simp only [List.append_assoc]
    · intro q hq
      rw [update_of_ne (Side.other_ne x), hframe.unread]
      exact hq
  · simp only [hno, Bool.false_eq_true, if_false, hsame]
    exact h.replace_socket x (h.bounded x) rfl rfl

theorem Balanced.take (h : Balanced l channel) (x : Side) (n : ℕ) :
    Balanced (l.take x n) channel := by
  have hb := h.bounded x
  unfold Link.take
  refine h.replace x ⟨hb.send, Nat.le_trans (Nat.sub_le _ _) hb.rcv⟩ (fun p hp ↦ hp)
    (?_) (update_of_ne (Side.other_ne x) _ _)
  intro q hq
  have hsplit : (l.socket x).unread = _ :=
    slice_split (l.socket x).rcvBuffer 0 (Nat.min_le_right n (l.socket x).nextRcvValidIndex)
  rw [update_self, ← hq, hsplit, Nat.zero_add, Socket.unread, slice_move]
  simp only [List.append_assoc]

theorem Balanced.callback (h : Balanced l channel) (x : Side) (ops : List CallbackOp) :
    Balanced (l.recvCallback x ops) channel := by
  induction ops generalizing l with
  | nil => exact h
  | cons op ops ih =>
    cases op with
    | take n => exact ih (h.take x n)
    | send data => exact ih (h.send x data)

theorem callback_channel (x : Side) (ops : List CallbackOp) (l : Link) :
    (l.recvCallback x ops).channel = l.channel := by
  induction ops generalizing l with
  | nil => rfl
  | cons op ops ih => cases op <;> exact ih _

theorem Balanced.receive (h : Balanced l channel) (x : Side) (kernel : RecvResult)
    (hp : ((l.socket x).receive kernel).1.bytes <+: channel x.other) :
    Balanced ((Link.place x).set ((l.socket x).receive kernel).2.2 l)
      (update channel x.other ((channel x.other).drop
        ((l.socket x).receive kernel).1.bytes.length)) := by
  refine h.replace_socket x (receive_bounded (h.bounded x) kernel) ?_ ?_
  · rw [update_of_ne (Side.ne_other x), receive_pending]
  · rw [update_self, (receive_spec (h.bounded x) kernel).1, List.append_assoc]
    congr 1
    exact List.prefix_iff_eq_append.mp hp

theorem Balanced.flush (h : Balanced l channel) (x : Side) (kernel : ℕ → SendResult) :
    Balanced ((Link.place x).set ((l.socket x).flush kernel).2 l)
      (update channel x (channel x ++ acceptedBytes ((l.socket x).flush kernel).1)) := by
  refine h.replace_socket x (flush_bounded kernel (h.bounded x)) ?_ ?_
  · rw [update_self, List.append_assoc, (flush_spec kernel (h.bounded x)).1]
  · rw [update_of_ne (Side.other_ne x), (flush_frame kernel (l.socket x)).unread]

theorem receive_permitted {s : Socket} {kernel : RecvResult} {bytes : List Byte} {closed : Bool}
    (h : kernel.Permitted bytes closed) : (s.receive kernel).1.bytes <+: bytes := by
  unfold Socket.receive
  cases kernel with
  | received bs control =>
    dsimp only
    split <;> exact (List.take_prefix _ _).trans h.1
  | error e => exact List.nil_prefix

theorem Balanced.sendAndRecv (h : Balanced l l.channel) (x : Side) (io : Io)
    (ops : List CallbackOp) (hp : io.recv.Permitted (l.channel x.other) (l.closed x.other)) :
    Balanced (l.sendAndRecv x io ops) (l.sendAndRecv x io ops).channel := by
  have hget : (Link.place x).get l = l.socket x := rfl
  by_cases hfd : (l.socket x).fd < 0
  · have hcall : l.sendAndRecv x io ops = { l with channel := l.channel } := by
      simp [Link.sendAndRecv, TCPSocket.sendAndRecv, hget, hfd, Record.none,
        Record.receivedBytes, acceptedBytes]
    rw [hcall]
    exact h
  · by_cases hroom : (l.socket x).nextRcvValidIndex ≥ tcpBufferSize
    · have hcall : l.sendAndRecv x io ops =
          (Link.place x).set { l.socket x with recvDisconnected := true } l := by
        simp [Link.sendAndRecv, TCPSocket.sendAndRecv, hfd, hroom, Record.none,
          Record.receivedBytes, acceptedBytes, Link.place]
      rw [hcall]
      exact h.replace_socket x ⟨(h.bounded x).send, (h.bounded x).rcv⟩ rfl rfl
    · obtain ⟨l₁, hl₁, hcall⟩ := sendAndRecv_open (Link.place x) io
        (fun _ ↦ Link.recvCallback x ops) l hfd hroom
      rw [hget] at hl₁ hcall
      have hrecv := h.receive x io.recv (receive_permitted hp)
      obtain ⟨hbal, hchan⟩ : Balanced l₁ (update l.channel x.other ((l.channel x.other).drop
          ((l.socket x).receive io.recv).1.bytes.length)) ∧ l₁.channel = l.channel := by
        rcases hl₁ with ⟨-, rfl⟩ | ⟨t, -, rfl⟩
        · exact ⟨hrecv, rfl⟩
        · exact ⟨hrecv.callback x ops, callback_channel x ops _⟩
      have hflush := hbal.flush x io.send
      have hresult : l.sendAndRecv x io ops =
          { (Link.place x).set ((l₁.socket x).flush io.send).2 l₁ with
            channel := update (update l.channel x.other ((l.channel x.other).drop
              ((l.socket x).receive io.recv).1.bytes.length)) x
              (l.channel x ++ acceptedBytes ((l₁.socket x).flush io.send).1) } := by
        simp only [Link.sendAndRecv, hcall]
        simp only [Link.place, hchan, Record.receivedBytes, Option.map_some, Option.getD_some]
      rw [hresult]
      rw [update_of_ne (Side.ne_other x)] at hflush
      exact ⟨hflush.bounded, hflush.stream⟩

theorem LinkStep.balanced {l' : Link} (h : Balanced l l.channel) (hs : LinkStep l l') :
    Balanced l' l'.channel := by
  cases hs with
  | send x data => exact h.send x data
  | sendAndRecv x io ops hp => exact h.sendAndRecv x io ops hp
  | close x => exact ⟨h.bounded, h.stream⟩

end Balanced

theorem initial_balanced (fd : Side → ℤ) (sendBuffer rcvBuffer : Side → ℕ → Byte) :
    Balanced (Link.initial fd sendBuffer rcvBuffer)
      (Link.initial fd sendBuffer rcvBuffer).channel :=
  ⟨fun _ ↦ ⟨Nat.zero_le _, Nat.zero_le _⟩, fun _ ↦ rfl⟩

theorem run_balanced {fd : Side → ℤ} {sendBuffer rcvBuffer : Side → ℕ → Byte} {l : Link}
    (h : Relation.ReflTransGen LinkStep (Link.initial fd sendBuffer rcvBuffer) l) :
    Balanced l l.channel := by
  induction h with
  | refl => exact initial_balanced fd sendBuffer rcvBuffer
  | tail _ hs ih => exact hs.balanced ih

/-- In both directions and after any calls on the two ends, whatever the kernel
accepts, delivers or fails: taken, unread, in flight and queued bytes are
together the data of the accepted `send()` calls, in order. -/
theorem run_stream_integrity (fd : Side → ℤ) (sendBuffer rcvBuffer : Side → ℕ → Byte) {l : Link}
    (h : Relation.ReflTransGen LinkStep (Link.initial fd sendBuffer rcvBuffer) l) (x : Side) :
    l.taken x.other ++ (l.socket x.other).unread ++ l.channel x ++ (l.socket x).pending =
      l.accepted x ∧ l.taken x.other <+: l.accepted x := by
  have hstream := (run_balanced h).stream x
  refine ⟨hstream, ?_⟩
  rw [← hstream, List.append_assoc, List.append_assoc]
  exact List.prefix_append _ _

theorem run_stream_integrity_partial :
    ∃ l : Link, Relation.ReflTransGen LinkStep
        (Link.initial (fun _ ↦ 3) (fun _ _ ↦ 0) (fun _ _ ↦ 0)) l ∧
      l.taken .b = [1] ∧ l.channel .a = [2] ∧ (l.socket .a).pending = [3] ∧
      l.taken .b <+: l.accepted .a := by
  have hrun : Relation.ReflTransGen LinkStep
      (Link.initial (fun _ ↦ 3) (fun _ _ ↦ 0) (fun _ _ ↦ 0)) _ :=
    ((Relation.ReflTransGen.refl.tail (.send .a (.bytes [1, 2, 3]))).tail
      (.sendAndRecv .a ⟨.error .eagain, fun i ↦ if i = 0 then .sent 2 else .error .eagain⟩ []
        trivial)).tail
      (.sendAndRecv .b ⟨.received [1] [], fun _ ↦ .error .eagain⟩ [.take 1] ⟨by decide, nofun⟩)
  exact ⟨_, hrun, by decide, by decide, by decide, (run_stream_integrity _ _ _ hrun .a).2⟩

end LowLatency.TCPSocket
