import LowLatency.Library.BoundedFifo
import LowLatency.Library.RingWindow
import LowLatency.Library.Words

namespace LowLatency.LFQueue

open Library.Words Library.BoundedFifo

variable {α : Type*}

/-- The shared memory of `LFQueue<T>`. Only slots below the capacity exist;
the indices are shown to stay there. -/
structure Queue (α : Type*) where
  store : ℕ → α
  nextWriteIndex : ℕ
  nextReadIndex : ℕ
  numElements : ℕ

def nextIndex (cap : Capacity) (index : ℕ) : ℕ := sizeAdd index 1 % cap.size

/-- Where the producer thread stands. `slot` is the pointer that its last
`getNextToWriteTo()` returned and `written` the value it last stored there
since it last published. -/
inductive Producer (α : Type*)
  | ready (slot : Option ℕ) (written : Option α)
  | checked (written : Option α)
  | loaded (index : ℕ) (value : α)
  | advanced (value : α)

/-- Where the consumer thread stands. `value` is what it last read from the
slot that it has not released yet. -/
inductive Consumer (α : Type*)
  | ready (slot : Option ℕ) (value : Option α)
  | checked (value : Option α)
  | asserted (value : α)
  | loaded (index : ℕ) (value : α)
  | advanced (value : α)
  | aborted

structure State (α : Type*) where
  queue : Queue α
  producer : Producer α
  consumer : Consumer α

def State.initial (store : ℕ → α) : State α :=
  ⟨⟨store, 0, 0, 0⟩, .ready none none, .ready none none⟩

namespace Queue

def writeSlot (i : ℕ) (v : α) (q : Queue α) : Queue α :=
  { q with store := Function.update q.store i v }

def storeWriteIndex (i : ℕ) (q : Queue α) : Queue α := { q with nextWriteIndex := i }

def storeReadIndex (i : ℕ) (q : Queue α) : Queue α := { q with nextReadIndex := i }

def increment (q : Queue α) : Queue α := { q with numElements := sizeAdd q.numElements 1 }

def decrement (q : Queue α) : Queue α := { q with numElements := sizeSub q.numElements 1 }

@[simp] theorem decrement_store (q : Queue α) : q.decrement.store = q.store := rfl

@[simp] theorem decrement_nextReadIndex (q : Queue α) :
    q.decrement.nextReadIndex = q.nextReadIndex := rfl

end Queue

open Queue in
/-- One atomic action of either thread, labelled with what a client of the
queue sees of it. A thread that is `ready` may ask for its slot again, and use
it again, as often as it likes. -/
inductive Step (cap : Capacity) : State α → Option (Op α) → State α → Prop
  -- producer: getNextToWriteTo()
  | writeFull {q : Queue α} {c : Consumer α} {slot : Option ℕ} {written : Option α}
      (h : q.numElements = cap.size) :
      Step cap ⟨q, .ready slot written, c⟩ (some .full) ⟨q, .ready none written, c⟩
  | writeCheck {q : Queue α} {c : Consumer α} {slot : Option ℕ} {written : Option α}
      (h : q.numElements ≠ cap.size) :
      Step cap ⟨q, .ready slot written, c⟩ none ⟨q, .checked written, c⟩
  | writeLoad {q : Queue α} {c : Consumer α} {written : Option α} :
      Step cap ⟨q, .checked written, c⟩ none ⟨q, .ready (some q.nextWriteIndex) written, c⟩
  -- producer: the write through the returned pointer
  | write {q : Queue α} {c : Consumer α} {i : ℕ} {written : Option α} (v : α) :
      Step cap ⟨q, .ready (some i) written, c⟩ none
        ⟨q.writeSlot i v, .ready (some i) (some v), c⟩
  -- producer: updateWriteIndex()
  | publishLoad {q : Queue α} {c : Consumer α} {i : ℕ} {v : α} :
      Step cap ⟨q, .ready (some i) (some v), c⟩ none ⟨q, .loaded q.nextWriteIndex v, c⟩
  | publishStore {q : Queue α} {c : Consumer α} {i : ℕ} {v : α} :
      Step cap ⟨q, .loaded i v, c⟩ none ⟨q.storeWriteIndex (nextIndex cap i), .advanced v, c⟩
  | publishCount {q : Queue α} {c : Consumer α} {v : α} :
      Step cap ⟨q, .advanced v, c⟩ (some (.enqueue v)) ⟨q.increment, .ready none none, c⟩
  -- consumer: getNextToRead()
  | readEmpty {q : Queue α} {p : Producer α} {slot : Option ℕ} {value : Option α}
      (h : q.numElements = 0) :
      Step cap ⟨q, p, .ready slot value⟩ (some .empty) ⟨q, p, .ready none value⟩
  | readCheck {q : Queue α} {p : Producer α} {slot : Option ℕ} {value : Option α}
      (h : q.numElements ≠ 0) :
      Step cap ⟨q, p, .ready slot value⟩ none ⟨q, p, .checked value⟩
  | readLoad {q : Queue α} {p : Producer α} {value : Option α} :
      Step cap ⟨q, p, .checked value⟩ none ⟨q, p, .ready (some q.nextReadIndex) value⟩
  -- consumer: the read through the returned pointer
  | read {q : Queue α} {p : Producer α} {i : ℕ} {value : Option α} :
      Step cap ⟨q, p, .ready (some i) value⟩ none ⟨q, p, .ready (some i) (some (q.store i))⟩
  -- consumer: updateReadIndex()
  | releaseAssert {q : Queue α} {p : Producer α} {i : ℕ} {v : α} (h : q.numElements ≠ 0) :
      Step cap ⟨q, p, .ready (some i) (some v)⟩ none ⟨q, p, .asserted v⟩
  | releaseAbort {q : Queue α} {p : Producer α} {i : ℕ} {v : α} (h : q.numElements = 0) :
      Step cap ⟨q, p, .ready (some i) (some v)⟩ none ⟨q, p, .aborted⟩
  | releaseLoad {q : Queue α} {p : Producer α} {v : α} :
      Step cap ⟨q, p, .asserted v⟩ none ⟨q, p, .loaded q.nextReadIndex v⟩
  | releaseStore {q : Queue α} {p : Producer α} {i : ℕ} {v : α} :
      Step cap ⟨q, p, .loaded i v⟩ none ⟨q.storeReadIndex (nextIndex cap i), p, .advanced v⟩
  | releaseCount {q : Queue α} {p : Producer α} {v : α} :
      Step cap ⟨q, p, .advanced v⟩ (some (.dequeue v)) ⟨q.decrement, p, .ready none none⟩
  -- size(), called by anyone
  | size {s : State α} : Step cap s (some (.size s.queue.numElements)) s

end LowLatency.LFQueue
