import LowLatency.LFQueue.Steps

namespace LowLatency.LFQueue

open Library.Runs Library.Words Library.BoundedFifo Library.RingWindow Queue

variable {α : Type*} {cap : Capacity}

theorem nextIndex_eq (cap : Capacity) {i : ℕ} (hi : i < cap.size) :
    nextIndex cap i = (i + 1) % cap.size := by
  have hfits := cap.fits
  rw [nextIndex, sizeAdd_eq (by omega)]

namespace Producer

def Reserved : Producer α → Prop
  | .ready slot written => slot.isSome ∨ written.isSome
  | _ => True

def index : Producer α → Option ℕ
  | .ready slot _ => slot
  | .loaded i _ => some i
  | _ => none

def value : Producer α → Option α
  | .ready _ written | .checked written => written
  | .loaded _ v | .advanced v => some v

def lead : Producer α → ℕ
  | .advanced _ => 1
  | _ => 0

end Producer

namespace Consumer

def Reserved : Consumer α → Prop
  | .ready slot value => slot.isSome ∨ value.isSome
  | .aborted => False
  | _ => True

def index : Consumer α → Option ℕ
  | .ready slot _ => slot
  | .loaded i _ => some i
  | _ => none

def value : Consumer α → Option α
  | .ready _ value | .checked value => value
  | .asserted v | .loaded _ v | .advanced v => some v
  | .aborted => none

def lead : Consumer α → ℕ
  | .advanced _ => 1
  | _ => 0

end Consumer

/-- The invariant over both program counters. `head` is the slot of the oldest
published element; it moves at `--num_elements_`, not when the index does. -/
structure Aligned (cap : Capacity) (s : State α) (q : List α) (head : ℕ) : Prop where
  head_lt : head < cap.size
  count : s.queue.numElements = q.length
  bound : q.length ≤ cap.size
  contents : window s.queue.store cap.size head q.length = q
  writeIndex : s.queue.nextWriteIndex = (head + q.length + s.producer.lead) % cap.size
  readIndex : s.queue.nextReadIndex = (head + s.consumer.lead) % cap.size
  room : s.producer.Reserved → q.length < cap.size
  writeSlot : ∀ i ∈ s.producer.index, i = (head + q.length) % cap.size
  written : ∀ v ∈ s.producer.value, s.queue.store ((head + q.length) % cap.size) = v
  some_element : s.consumer.Reserved → 0 < q.length
  readSlot : ∀ i ∈ s.consumer.index, i = head
  read : ∀ v ∈ s.consumer.value, s.queue.store head = v
  not_aborted : s.consumer ≠ .aborted

theorem initial_aligned (cap : Capacity) (store : ℕ → α) :
    Aligned cap (State.initial store) [] 0 := by
  have hpos := cap.pos
  constructor <;> simp [State.initial, Producer.lead, Consumer.lead, Producer.Reserved,
    Consumer.Reserved, Producer.index, Producer.value, Consumer.index, Consumer.value, hpos]

section Producer

variable {m : Queue α} {c : Consumer α} {q : List α} {head i : ℕ} {slot : Option ℕ}
  {written : Option α} {v : α}

theorem Aligned.writeCheck (h : Aligned cap ⟨m, .ready slot written, c⟩ q head)
    (hn : m.numElements ≠ cap.size) : Aligned cap ⟨m, .checked written, c⟩ q head := by
  have hb := h.bound
  have hc : m.numElements = q.length := h.count
  exact { h with
    room := fun _ ↦ by omega
    writeSlot := by simp [Producer.index] }

theorem Aligned.writeLoad (h : Aligned cap ⟨m, .checked written, c⟩ q head) :
    Aligned cap ⟨m, .ready (some m.nextWriteIndex) written, c⟩ q head :=
  { h with
    room := fun _ ↦ h.room trivial
    writeSlot := fun i hi ↦ by
      obtain rfl : m.nextWriteIndex = i := by simpa [Producer.index] using hi
      exact h.writeIndex }

theorem Aligned.write (h : Aligned cap ⟨m, .ready (some i) written, c⟩ q head) (v : α) :
    Aligned cap ⟨m.writeSlot i v, .ready (some i) (some v), c⟩ q head := by
  have hroom : q.length < cap.size := h.room (.inl rfl)
  obtain rfl : i = (head + q.length) % cap.size := h.writeSlot i rfl
  exact { h with
    contents := by
      rw [← h.contents, window_length]
      exact window_update _ _ hroom le_rfl
    room := fun _ ↦ hroom
    written := fun w hw ↦ by
      obtain rfl : v = w := by simpa [Producer.value] using hw
      exact Function.update_self ..
    read := fun w hw ↦ by
      -- The consumer's slot is occupied, the producer's is not.
      have hq : 0 < q.length := by
        refine h.some_element ?_
        cases c <;> simp_all [Consumer.Reserved, Consumer.value]
      have hne := slot_ne (h := head) (i := 0) (by omega) hroom (by omega)
      rw [Nat.add_zero, Nat.mod_eq_of_lt h.head_lt] at hne
      exact (Function.update_of_ne hne _ _).trans (h.read w hw) }

theorem Aligned.publishLoad (h : Aligned cap ⟨m, .ready (some i) (some v), c⟩ q head) :
    Aligned cap ⟨m, .loaded m.nextWriteIndex v, c⟩ q head :=
  { h with
    room := fun _ ↦ h.room (.inl rfl)
    writeSlot := fun j hj ↦ by
      obtain rfl : m.nextWriteIndex = j := by simpa [Producer.index] using hj
      exact h.writeIndex }

theorem Aligned.publishStore (h : Aligned cap ⟨m, .loaded i v, c⟩ q head) :
    Aligned cap ⟨m.storeWriteIndex (nextIndex cap i), .advanced v, c⟩ q head :=
  { h with
    writeIndex := by
      obtain rfl : i = (head + q.length) % cap.size := h.writeSlot i rfl
      change nextIndex cap _ = _
      rw [nextIndex_eq cap (Nat.mod_lt _ cap.pos), Nat.mod_add_mod]
      rfl
    room := fun _ ↦ h.room trivial
    writeSlot := by simp [Producer.index] }

theorem Aligned.publishCount (h : Aligned cap ⟨m, .advanced v, c⟩ q head) :
    Aligned cap ⟨m.increment, .ready none none, c⟩ (q ++ [v]) head := by
  have hroom : q.length < cap.size := h.room trivial
  have hfits := cap.fits
  have hlen : (q ++ [v]).length = q.length + 1 := List.length_append
  exact { h with
    count := by
      change sizeAdd m.numElements 1 = _
      rw [show m.numElements = q.length from h.count, sizeAdd_eq (by omega), hlen]
    bound := by omega
    contents := by
      rw [hlen, window_snoc]
      congr 1
      · exact h.contents
      · exact congrArg (fun x ↦ [x]) (h.written v rfl)
    writeIndex := by
      rw [hlen]
      exact h.writeIndex
    room := by simp [Producer.Reserved]
    writeSlot := by simp [Producer.index]
    written := by simp [Producer.value]
    some_element := fun _ ↦ by omega }

end Producer

section Consumer

variable {m : Queue α} {p : Producer α} {q : List α} {head i : ℕ} {slot : Option ℕ}
  {value : Option α} {v : α}

theorem Aligned.readCheck (h : Aligned cap ⟨m, p, .ready slot value⟩ q head)
    (hn : m.numElements ≠ 0) : Aligned cap ⟨m, p, .checked value⟩ q head := by
  have hc : m.numElements = q.length := h.count
  exact { h with
    some_element := fun _ ↦ by omega
    readSlot := by simp [Consumer.index]
    not_aborted := by simp }

theorem Aligned.readLoad (h : Aligned cap ⟨m, p, .checked value⟩ q head) :
    Aligned cap ⟨m, p, .ready (some m.nextReadIndex) value⟩ q head :=
  { h with
    some_element := fun _ ↦ h.some_element trivial
    readSlot := fun i hi ↦ by
      obtain rfl : m.nextReadIndex = i := by simpa [Consumer.index] using hi
      exact h.readIndex.trans (Nat.mod_eq_of_lt h.head_lt)
    not_aborted := by simp }

theorem Aligned.readSlotValue (h : Aligned cap ⟨m, p, .ready (some i) value⟩ q head) :
    Aligned cap ⟨m, p, .ready (some i) (some (m.store i))⟩ q head :=
  { h with
    some_element := fun _ ↦ h.some_element (.inl rfl)
    read := fun w hw ↦ by
      obtain rfl : m.store i = w := by simpa [Consumer.value] using hw
      rw [show i = head from h.readSlot i rfl]
    not_aborted := by simp }

theorem Aligned.releaseAssert (h : Aligned cap ⟨m, p, .ready (some i) (some v)⟩ q head) :
    Aligned cap ⟨m, p, .asserted v⟩ q head :=
  { h with
    some_element := fun _ ↦ h.some_element (.inl rfl)
    readSlot := by simp [Consumer.index]
    not_aborted := by simp }

theorem Aligned.releaseLoad (h : Aligned cap ⟨m, p, .asserted v⟩ q head) :
    Aligned cap ⟨m, p, .loaded m.nextReadIndex v⟩ q head :=
  { h with
    readSlot := fun i hi ↦ by
      obtain rfl : m.nextReadIndex = i := by simpa [Consumer.index] using hi
      exact h.readIndex.trans (Nat.mod_eq_of_lt h.head_lt)
    not_aborted := by simp }

theorem Aligned.releaseStore (h : Aligned cap ⟨m, p, .loaded i v⟩ q head) :
    Aligned cap ⟨m.storeReadIndex (nextIndex cap i), p, .advanced v⟩ q head :=
  { h with
    readIndex := by
      obtain rfl : i = head := h.readSlot i rfl
      exact nextIndex_eq cap h.head_lt
    readSlot := by simp [Consumer.index]
    not_aborted := by simp }

/-- Only here does the oldest element leave, so the head slot moves on by one
while `next_read_index_` stays where it is. -/
theorem Aligned.releaseCount (h : Aligned cap ⟨m, p, .advanced v⟩ q head) :
    ∃ rest, q = v :: rest ∧
      Aligned cap ⟨m.decrement, p, .ready none none⟩ rest ((head + 1) % cap.size) := by
  have hpos : 0 < q.length := h.some_element trivial
  have hcap := cap.pos
  have hfits := cap.fits
  obtain ⟨n, hn⟩ : ∃ n, q.length = n + 1 := ⟨q.length - 1, by omega⟩
  have hb := h.bound
  have hq : q = v :: window m.store cap.size ((head + 1) % cap.size) n := by
    rw [← h.contents, hn, window_cons, Nat.mod_eq_of_lt h.head_lt]
    exact congrArg (· :: _) (h.read v rfl)
  have hsum (k : ℕ) : ((head + 1) % cap.size + n + k) % cap.size =
      (head + q.length + k) % cap.size := by
    rw [hn, Nat.add_assoc, Nat.mod_add_mod]
    congr 1
    omega
  refine ⟨_, hq, ?_⟩
  exact { h with
    head_lt := Nat.mod_lt _ hcap
    count := by
      change sizeSub m.numElements 1 = _
      rw [show m.numElements = q.length from h.count, sizeSub_eq hpos, window_length]
      omega
    bound := by rw [window_length]; omega
    contents := by rw [window_length, decrement_store]
    writeIndex := by
      rw [window_length, hsum]
      exact h.writeIndex
    readIndex := by
      have hr : m.nextReadIndex = (head + 1) % cap.size := h.readIndex
      simp only [decrement_nextReadIndex, hr, Consumer.lead, Nat.add_zero, Nat.mod_mod]
    room := fun _ ↦ by rw [window_length]; omega
    writeSlot := fun i hi ↦ by
      rw [window_length, h.writeSlot i hi]
      exact (hsum 0).symm
    written := fun w hw ↦ by
      rw [window_length, ← Nat.add_zero ((head + 1) % cap.size + n), hsum]
      exact h.written w hw
    some_element := by simp [Consumer.Reserved]
    readSlot := by simp [Consumer.index]
    read := by simp [Consumer.value]
    not_aborted := by simp }

end Consumer

def Represents (cap : Capacity) (s : State α) (q : List α) : Prop :=
  ∃ head, Aligned cap s q head

theorem step_simulation (s : State α) (q : List α) (l : Option (Op α)) (s' : State α)
    (h : Represents cap s q) (hs : Step cap s l s') :
    ∃ q', Answers (FifoStep cap.size) q l q' ∧ Represents cap s' q' := by
  obtain ⟨head, h⟩ := h
  have hcount := h.count
  cases hs with
  | writeFull hn =>
    refine ⟨q, .full (hcount.symm.trans hn), head, ?_⟩
    exact { h with
      room := fun hr ↦ h.room (.inr (by simpa [Producer.Reserved] using hr))
      writeSlot := by simp [Producer.index] }
  | writeCheck hn => exact ⟨q, rfl, head, h.writeCheck hn⟩
  | writeLoad => exact ⟨q, rfl, head, h.writeLoad⟩
  | write v => exact ⟨q, rfl, head, h.write v⟩
  | publishLoad => exact ⟨q, rfl, head, h.publishLoad⟩
  | publishStore => exact ⟨q, rfl, head, h.publishStore⟩
  | @publishCount m c v =>
    exact ⟨q ++ [v], .enqueue v (h.room trivial), head, h.publishCount⟩
  | readEmpty hn =>
    obtain rfl : q = [] := List.length_eq_zero_iff.mp (hcount.symm.trans hn)
    refine ⟨[], .empty, head, ?_⟩
    exact { h with
      some_element := fun hr ↦ h.some_element (.inr (by simpa [Consumer.Reserved] using hr))
      readSlot := by simp [Consumer.index]
      not_aborted := by simp }
  | readCheck hn => exact ⟨q, rfl, head, h.readCheck hn⟩
  | readLoad => exact ⟨q, rfl, head, h.readLoad⟩
  | read => exact ⟨q, rfl, head, h.readSlotValue⟩
  | releaseAssert _ => exact ⟨q, rfl, head, h.releaseAssert⟩
  | releaseAbort hn =>
    have hpos : 0 < q.length := h.some_element (.inl rfl)
    exact absurd (hcount.symm.trans hn) (by omega)
  | releaseLoad => exact ⟨q, rfl, head, h.releaseLoad⟩
  | releaseStore => exact ⟨q, rfl, head, h.releaseStore⟩
  | @releaseCount m p v =>
    obtain ⟨rest, rfl, hrest⟩ := h.releaseCount
    exact ⟨rest, .dequeue v rest, _, hrest⟩
  | size =>
    refine ⟨q, ?_, head, h⟩
    rw [hcount]
    exact .size q

theorem run_simulation {store : ℕ → α} {ls : List (Option (Op α))} {s : State α}
    (h : Run (Step cap) (State.initial store) ls s) :
    ∃ q, Run (FifoStep cap.size) [] ls.reduceOption q ∧ Represents cap s q :=
  simulate (Represents cap) step_simulation h ⟨0, initial_aligned cap store⟩

theorem Represents.value_head {s : State α} {q : List α} (h : Represents cap s q) :
    s.consumer.value.toList <+: q := by
  obtain ⟨head, h⟩ := h
  cases hv : s.consumer.value with
  | none => exact List.nil_prefix
  | some v =>
    have hpos : 0 < q.length := by
      refine h.some_element ?_
      cases hc : s.consumer <;> simp_all [Consumer.Reserved, Consumer.value]
    obtain ⟨n, hn⟩ : ∃ n, q.length = n + 1 := ⟨q.length - 1, by omega⟩
    rw [← h.contents, hn, window_cons, Nat.mod_eq_of_lt h.head_lt, h.read v hv]
    exact ⟨_, rfl⟩

theorem Producer.reserved_of_index {p : Producer α} {i : ℕ} (hi : i ∈ p.index) : p.Reserved := by
  cases p with
  | ready slot written => exact .inl (Option.isSome_iff_exists.mpr ⟨i, hi⟩)
  | checked | loaded | advanced => trivial

theorem Consumer.reserved_of_index {c : Consumer α} {i : ℕ} (hi : i ∈ c.index) : c.Reserved := by
  cases c with
  | ready slot value => exact .inl (Option.isSome_iff_exists.mpr ⟨i, hi⟩)
  | checked | asserted | loaded | advanced => trivial
  | aborted => cases hi

theorem Aligned.ends_ne {s : State α} {q : List α} {head : ℕ} (h : Aligned cap s q head)
    (hp : s.producer.Reserved) (hc : s.consumer.Reserved) :
    (head + q.length) % cap.size ≠ head := by
  have hroom := h.room hp
  have hpos := h.some_element hc
  have hne := slot_ne (h := head) (i := q.length) (j := 0) hroom (by omega) (by omega)
  rwa [Nat.add_zero, Nat.mod_eq_of_lt h.head_lt] at hne

theorem Aligned.slots_ne {s : State α} {q : List α} {head : ℕ} (h : Aligned cap s q head) {i j : ℕ}
    (hi : i ∈ s.producer.index) (hj : j ∈ s.consumer.index) : i ≠ j := by
  rw [h.writeSlot i hi, h.readSlot j hj]
  exact h.ends_ne (Producer.reserved_of_index hi) (Consumer.reserved_of_index hj)

/-- Every interleaving of the two threads behaves like a first-in first-out
list of at most `cap.size` values that changes at `++num_elements_` and
`--num_elements_`. What the consumer has read, the slot it still holds
included, is a prefix of what was published. The assert of `updateReadIndex()`
never fails, and the two threads never hold the same slot. -/
theorem run_refines_boundedFifo (cap : Capacity) (store : ℕ → α) {ls : List (Option (Op α))}
    {s : State α} (h : Run (Step cap) (State.initial store) ls s) :
    ∃ q, Run (FifoStep cap.size) [] ls.reduceOption q ∧
      q.length ≤ cap.size ∧ s.queue.numElements = q.length ∧
      enqueued ls.reduceOption = dequeued ls.reduceOption ++ q ∧
      dequeued ls.reduceOption ++ s.consumer.value.toList <+: enqueued ls.reduceOption ∧
      s.consumer ≠ .aborted ∧ ∀ i ∈ s.producer.index, ∀ j ∈ s.consumer.index, i ≠ j := by
  obtain ⟨q, hrun, hrep⟩ := run_simulation h
  have horder := run_order hrun
  have hvalue := hrep.value_head
  obtain ⟨head, hal⟩ := hrep
  refine ⟨q, hrun, hal.bound, hal.count, horder, ?_, hal.not_aborted, ?_⟩
  · rw [horder]
    exact (List.prefix_append_right_inj _).mpr hvalue
  · intro i hi j hj
    exact hal.slots_ne hi hj

theorem run_refines_boundedFifo_one :
    ∃ (ls : List (Option (Op ℕ))) (s : State ℕ),
      Run (Step ⟨1, by decide, by decide⟩) (State.initial fun _ ↦ 0) ls s ∧
      enqueued ls.reduceOption = [7] ∧
      dequeued ls.reduceOption ++ [7] <+: enqueued ls.reduceOption := by
  have hrun : Run (Step ⟨1, by decide, by decide⟩) (State.initial fun _ ↦ 0) _ _ :=
    ((((((((Run.nil.snoc (Step.writeCheck (by decide))).snoc .writeLoad).snoc (.write 7)).snoc
      .publishLoad).snoc .publishStore).snoc .publishCount).snoc
      (.readCheck (by decide))).snoc .readLoad).snoc .read
  obtain ⟨q, -, -, -, -, hread, -⟩ := run_refines_boundedFifo _ _ hrun
  exact ⟨_, _, hrun, rfl, hread⟩

end LowLatency.LFQueue
