import LowLatency.LFQueue.Refinement
import LowLatency.Library.Fairness
import LowLatency.Logger.Threads

namespace LowLatency.Logger

open Library.Words Library.BoundedFifo Library.Runs Library.Fairness LFQueue Queue

/-- The next atomic action of the application thread. `slot` is the pointer that
`getNextToWriteTo()` returned and `index` what was loaded from `next_write_index_`. -/
inductive AppCode
  -- pushValue(const LogElement&)
  | pushing (todo : List LogElement)
  | waiting (e : LogElement) (todo : List LogElement)
  | addressing (e : LogElement) (todo : List LogElement)
  | storing (slot : ℕ) (e : LogElement) (todo : List LogElement)
  | loading (slot : ℕ) (e : LogElement) (todo : List LogElement)
  | advancing (index : ℕ) (e : LogElement) (todo : List LogElement)
  | counting (e : LogElement) (todo : List LogElement)
  -- ~Logger()
  | draining
  | stopping
  | joining
  | joined
  deriving DecidableEq

/-- The next atomic action of the background thread. `e` is what it last read
through `next`. -/
inductive FlusherCode
  | checking
  | fetching
  | addressing
  | writing (slot : ℕ)
  | asserting (slot : ℕ) (e : LogElement)
  | loading (e : LogElement)
  | advancing (index : ℕ) (e : LogElement)
  | counting (e : LogElement)
  | sleeping
  | returned
  | aborted
  deriving DecidableEq

structure Machine where
  queue : Queue LogElement
  running : Bool
  app : AppCode
  flusher : FlusherCode
  file : List (Option Value)
  pushed : List LogElement

def Machine.initial (store : ℕ → LogElement) (program : List LogElement) : Machine :=
  ⟨⟨store, 0, 0, 0⟩, true, .pushing program, .checking, [], []⟩

inductive Thread
  | app
  | flusher
  deriving DecidableEq

namespace Machine

variable (cap : Capacity) (m : Machine)

/-- The first load of `getNextToWriteTo()`. -/
def seek (e : LogElement) (todo : List LogElement) : Machine :=
  if m.queue.numElements = cap.size then { m with app := .waiting e todo }
  else { m with app := .addressing e todo }

def appStep : Machine :=
  match m.app with
  | .pushing [] => { m with app := .draining }
  -- while ((slot = queue_.getNextToWriteTo()) == nullptr)
  | .pushing (e :: todo) | .waiting e todo => m.seek cap e todo
  | .addressing e todo => { m with app := .storing m.queue.nextWriteIndex e todo }
  -- *slot = element
  | .storing slot e todo =>
    { m with queue := m.queue.writeSlot slot e, app := .loading slot e todo }
  -- updateWriteIndex()
  | .loading _ e todo => { m with app := .advancing m.queue.nextWriteIndex e todo }
  | .advancing index e todo =>
    { m with queue := m.queue.storeWriteIndex (nextIndex cap index), app := .counting e todo }
  | .counting e todo =>
    { m with queue := m.queue.increment, app := .pushing todo, pushed := m.pushed ++ [e] }
  -- ~Logger()
  | .draining => if m.queue.numElements ≠ 0 then m else { m with app := .stopping }
  | .stopping => { m with app := .joining, running := false }
  | .joining => if m.flusher = .returned then { m with app := .joined } else m
  | .joined => m

def flusherStep : Machine :=
  match m.flusher with
  | .checking =>
    if m.running then { m with flusher := .fetching } else { m with flusher := .returned }
  -- getNextToRead()
  | .fetching =>
    if m.queue.numElements = 0 then { m with flusher := .sleeping }
    else { m with flusher := .addressing }
  | .addressing => { m with flusher := .writing m.queue.nextReadIndex }
  -- the switch over next->type_
  | .writing slot =>
    { m with
      file := m.file ++ [(m.queue.store slot).member]
      flusher := .asserting slot (m.queue.store slot) }
  -- updateReadIndex()
  | .asserting _ e =>
    if m.queue.numElements ≠ 0 then { m with flusher := .loading e }
    else { m with flusher := .aborted }
  | .loading e => { m with flusher := .advancing m.queue.nextReadIndex e }
  | .advancing index e =>
    { m with queue := m.queue.storeReadIndex (nextIndex cap index), flusher := .counting e }
  | .counting _ => { m with queue := m.queue.decrement, flusher := .fetching }
  | .sleeping => { m with flusher := .checking }
  | .returned | .aborted => m

def step : Thread → Machine → Machine
  | .app, m => m.appStep cap
  | .flusher, m => m.flusherStep cap

end Machine

section Levels

def AppCode.producer : AppCode → Producer LogElement
  | .addressing _ _ => .checked none
  | .storing slot _ _ => .ready (some slot) none
  | .loading slot e _ => .ready (some slot) (some e)
  | .advancing index e _ => .loaded index e
  | .counting e _ => .advanced e
  | _ => .ready none none

def FlusherCode.consumer : FlusherCode → Consumer LogElement
  | .addressing => .checked none
  | .writing slot => .ready (some slot) none
  | .asserting slot e => .ready (some slot) (some e)
  | .loading e => .asserted e
  | .advancing index e => .loaded index e
  | .counting e => .advanced e
  | .aborted => .aborted
  | _ => .ready none none

def Machine.users (m : Machine) : LFQueue.State LogElement :=
  ⟨m.queue, m.app.producer, m.flusher.consumer⟩

def AppCode.place : AppCode → App
  | .pushing todo => .pushing todo
  | .waiting e todo => .waiting e todo
  | .addressing e todo | .storing _ e todo | .loading _ e todo | .advancing _ e todo
  | .counting e todo => .storing e todo
  | .draining => .draining
  | .stopping => .stopping
  | .joining => .joining
  | .joined => .joined

def FlusherCode.place : FlusherCode → Flusher
  | .checking => .checking
  | .fetching => .fetching
  | .addressing | .writing _ => .holding
  | .asserting _ _ | .loading _ | .advancing _ _ | .counting _ | .aborted => .releasing
  | .sleeping => .sleeping
  | .returned => .returned

def Machine.threads (m : Machine) (q : List LogElement) : State :=
  ⟨q, m.running, m.app.place, m.flusher.place, m.file, m.pushed⟩

/-- The machine and a state of the two threads over the list that its memory represents. -/
def Machine.Shows (cap : Capacity) (m : Machine) (s : State) : Prop :=
  Represents cap m.users s.queue ∧ s = m.threads s.queue

theorem initial_shows (cap : Capacity) (store : ℕ → LogElement) (program : List LogElement) :
    (Machine.initial store program).Shows cap (State.initial program) :=
  ⟨⟨0, initial_aligned cap store⟩, rfl⟩

end Levels

section Simulation

variable {cap : Capacity} {u u' : LFQueue.State LogElement} {q : List LogElement} {m : Machine}

theorem count_eq (h : Represents cap m.users q) : m.queue.numElements = q.length := by
  obtain ⟨head, hal⟩ := h
  exact hal.count

theorem represents_silent (h : Represents cap u q) (hs : LFQueue.Step cap u none u') :
    Represents cap u' q := by
  obtain ⟨q', hans, h'⟩ := step_simulation _ _ _ _ h hs
  rwa [show q' = q from hans] at h'

theorem seek_simulates {e : LogElement} {todo : List LogElement} (h : Represents cap m.users q)
    (hp : m.app.producer = .ready none none)
    (ha : m.app.place = .pushing (e :: todo) ∨ m.app.place = .waiting e todo) :
    ∃ q', Relation.ReflGen (Step cap.size) (m.threads q) ((m.seek cap e todo).threads q') ∧
      Represents cap (m.seek cap e todo).users q' := by
  have hcount := count_eq h
  rw [Machine.users, hp] at h
  by_cases hfull : m.queue.numElements = cap.size
  · simp only [Machine.seek, if_pos hfull]
    exact ⟨q, .single (.full ha (hcount.symm.trans hfull)), h⟩
  · simp only [Machine.seek, if_neg hfull]
    refine ⟨q, .single (.slot ha fun hq ↦ hfull (hcount.trans hq)), ?_⟩
    exact represents_silent h (.writeCheck hfull)

theorem appStep_simulates (h : Represents cap m.users q) :
    ∃ q', Relation.ReflGen (Step cap.size) (m.threads q) ((m.appStep cap).threads q') ∧
      Represents cap (m.appStep cap).users q' := by
  have hcount := count_eq h
  obtain ⟨queue, running, app, flusher, file, pushed⟩ := m
  simp only at hcount
  cases app with
  | pushing todo =>
    cases todo with
    | nil => exact ⟨q, .single (.destroy rfl), h⟩
    | cons e todo => exact seek_simulates h rfl (.inl rfl)
  | waiting e todo => exact seek_simulates h rfl (.inr rfl)
  | addressing e todo => exact ⟨q, .refl, represents_silent h .writeLoad⟩
  | storing slot e todo => exact ⟨q, .refl, represents_silent h (.write e)⟩
  | loading slot e todo => exact ⟨q, .refl, represents_silent h .publishLoad⟩
  | advancing index e todo => exact ⟨q, .refl, represents_silent h .publishStore⟩
  | counting e todo =>
    obtain ⟨q', hans, h'⟩ := step_simulation _ _ _ _ h .publishCount
    exact ⟨q', .single (.publish rfl hans), h'⟩
  | draining =>
    by_cases hq : queue.numElements = 0
    · simp only [Machine.appStep, hq, ne_eq, not_true_eq_false, if_false]
      exact ⟨q, .single (.drained rfl (hcount.symm.trans hq)), h⟩
    · simp only [Machine.appStep, ne_eq, hq, not_false_eq_true, if_true]
      exact ⟨q, .refl, h⟩
  | stopping => exact ⟨q, .single (.stop rfl), h⟩
  | joining =>
    by_cases hf : flusher = .returned
    · simp only [Machine.appStep, if_pos hf]
      exact ⟨q, .single (.join rfl (by rw [Machine.threads, hf]; rfl)), h⟩
    · simp only [Machine.appStep, if_neg hf]
      exact ⟨q, .refl, h⟩
  | joined => exact ⟨q, .refl, h⟩

theorem flusherStep_simulates (h : Represents cap m.users q) :
    ∃ q', Relation.ReflGen (Step cap.size) (m.threads q) ((m.flusherStep cap).threads q') ∧
      Represents cap (m.flusherStep cap).users q' := by
  have hcount := count_eq h
  obtain ⟨queue, running, app, flusher, file, pushed⟩ := m
  simp only at hcount
  cases flusher with
  | checking =>
    cases running with
    | true => exact ⟨q, .single (.checkRunning rfl rfl), h⟩
    | false => exact ⟨q, .single (.checkStopped rfl rfl), h⟩
  | fetching =>
    by_cases hq : queue.numElements = 0
    · simp only [Machine.flusherStep, if_pos hq]
      have hnil : q = [] := List.length_eq_zero_iff.mp (hcount.symm.trans hq)
      exact ⟨q, .single (.fetchNone rfl hnil), h⟩
    · simp only [Machine.flusherStep, if_neg hq]
      refine ⟨q, .single (.fetchSome rfl ?_), represents_silent h (.readCheck hq)⟩
      intro hnil
      exact hq (hcount.trans (congrArg List.length hnil))
  | addressing => exact ⟨q, .refl, represents_silent h .readLoad⟩
  | writing slot =>
    have h' := represents_silent h .read
    -- What the pointer shows is the oldest element of the list.
    obtain ⟨rest, hrest⟩ := h'.value_head
    exact ⟨q, .single (.write rfl hrest.symm), h'⟩
  | asserting slot e =>
    by_cases hq : queue.numElements = 0
    · obtain ⟨head, hal⟩ := represents_silent h (.releaseAbort hq)
      exact absurd rfl hal.not_aborted
    · simp only [Machine.flusherStep, ne_eq, hq, not_false_eq_true, if_true]
      exact ⟨q, .refl, represents_silent h (.releaseAssert hq)⟩
  | loading e => exact ⟨q, .refl, represents_silent h .releaseLoad⟩
  | advancing index e => exact ⟨q, .refl, represents_silent h .releaseStore⟩
  | counting e =>
    obtain ⟨q', hans, h'⟩ := step_simulation _ _ _ _ h .releaseCount
    exact ⟨q', .single (.release rfl hans), h'⟩
  | sleeping => exact ⟨q, .single (.wake rfl), h⟩
  | returned => exact ⟨q, .refl, h⟩
  | aborted => exact ⟨q, .refl, h⟩

theorem Machine.Shows.step {s : State} (h : m.Shows cap s) (t : Thread) :
    ∃ s', Relation.ReflGen (Step cap.size) s s' ∧ (m.step cap t).Shows cap s' := by
  obtain ⟨hrep, hs⟩ := h
  rw [hs]
  cases t with
  | app =>
    obtain ⟨q', hstep, hrep'⟩ := appStep_simulates hrep
    exact ⟨_, hstep, hrep', rfl⟩
  | flusher =>
    obtain ⟨q', hstep, hrep'⟩ := flusherStep_simulates hrep
    exact ⟨_, hstep, hrep', rfl⟩

end Simulation

section Runs

variable {cap : Capacity} {program : List LogElement} {m : Machine}

theorem machine_shows (cap : Capacity) (store : ℕ → LogElement) (program : List LogElement)
    (schedule : ℕ → Thread) (k : ℕ) :
    ∃ s, Relation.ReflTransGen (Step cap.size) (State.initial program) s ∧
      (states (Machine.step cap) schedule (Machine.initial store program) k).Shows cap s :=
  states_simulate (Machine.Shows cap) (fun t _ _ h ↦ h.step t) (initial_shows cap store program)
    schedule k

def Machine.Inv (cap : Capacity) (program : List LogElement) (m : Machine) : Prop :=
  ∃ s, m.Shows cap s ∧ Logger.Inv cap.size program s

theorem machine_initial_inv (cap : Capacity) (store : ℕ → LogElement)
    (program : List LogElement) : (Machine.initial store program).Inv cap program :=
  ⟨_, initial_shows cap store program, initial_inv cap.size program⟩

theorem Machine.Inv.step (h : m.Inv cap program) (t : Thread) :
    (m.step cap t).Inv cap program := by
  obtain ⟨s, hshows, hinv⟩ := h
  obtain ⟨s', hstep, hshows'⟩ := hshows.step t
  refine ⟨s', hshows', ?_⟩
  cases hstep with
  | refl => exact hinv
  | single hs => exact hinv.step hs

theorem Machine.Inv.not_aborted (h : m.Inv cap program) : m.flusher ≠ .aborted := by
  obtain ⟨s, ⟨⟨head, hal⟩, -⟩, -⟩ := h
  intro hf
  apply hal.not_aborted
  rw [Machine.users, hf]
  rfl

theorem Machine.Inv.slots (h : m.Inv cap program) {i j : ℕ} (hi : i ∈ m.app.producer.index)
    (hj : j ∈ m.flusher.consumer.index) : i ≠ j ∧ i < cap.size ∧ j < cap.size := by
  obtain ⟨s, ⟨⟨head, hal⟩, -⟩, -⟩ := h
  refine ⟨hal.slots_ne hi hj, ?_, ?_⟩
  · rw [hal.writeSlot i hi]
    exact Nat.mod_lt _ cap.pos
  · rw [hal.readSlot j hj]
    exact hal.head_lt

variable {calls : List Call}

theorem Machine.Inv.written (h : m.Inv cap (calls.flatMap Call.elements)) :
    m.file <+: m.pushed.map fun e ↦ some e.value := by
  obtain ⟨s, ⟨-, hs⟩, hinv⟩ := h
  have hfile := hinv.file_prefix
  rwa [hinv.pushed_members, hs] at hfile

theorem Machine.Inv.returned_empty (h : m.Inv cap program) (hf : m.flusher = .returned) :
    m.queue.numElements = 0 ∧ m.pushed = program := by
  obtain ⟨s, ⟨hrep, hs⟩, hinv⟩ := h
  have hplace : s.flusher = .returned := by
    rw [hs, Machine.threads, hf]
    rfl
  obtain ⟨hq, hpending⟩ := hinv.stopped (hinv.returned hplace)
  have horder := hinv.order
  rw [hpending, List.append_nil, hs] at horder
  refine ⟨?_, horder⟩
  rw [count_eq hrep, hq]
  rfl

theorem Machine.Inv.joined_complete (h : m.Inv cap (calls.flatMap Call.elements))
    (ha : m.app = .joined) :
    m.flusher = .returned ∧
      m.file = (calls.flatMap Call.elements).map fun e ↦ some e.value := by
  obtain ⟨s, ⟨-, hs⟩, hinv⟩ := h
  have hplace : s.app = .joined := by
    rw [hs, Machine.threads, ha]
    rfl
  obtain ⟨hfile, hpushed⟩ := hinv.joined_file hplace
  have hret := hinv.joined hplace
  rw [hinv.pushed_members, hpushed, hs] at hfile
  rw [hs, Machine.threads] at hret
  refine ⟨?_, hfile⟩
  cases hf : m.flusher with
  | returned => rfl
  | checking | fetching | addressing | writing | asserting | loading | advancing | counting
  | sleeping | aborted => simp [hf, FlusherCode.place] at hret

/-- The logger after `k` turns of its threads, when the application makes these
calls and then destroys it. -/
def Machine.after (cap : Capacity) (store : ℕ → LogElement) (calls : List Call)
    (schedule : ℕ → Thread) (k : ℕ) : Machine :=
  states (Machine.step cap) schedule (Machine.initial store (calls.flatMap Call.elements)) k

theorem after_inv (cap : Capacity) (store : ℕ → LogElement) (calls : List Call)
    (schedule : ℕ → Thread) (k : ℕ) :
    (Machine.after cap store calls schedule k).Inv cap (calls.flatMap Call.elements) :=
  states_invariant (fun t _ h ↦ h.step t) (machine_initial_inv cap store _) schedule k

/-- The logger at the level of single loads and stores behaves like the two
threads over a bounded list, for every capacity and every interleaving: what
holds of these holds of the file, no assert fails, and the element that is
written is never in the slot that is read. -/
theorem machine_refines_threads (cap : Capacity) (store : ℕ → LogElement) (calls : List Call)
    (schedule : ℕ → Thread) (k : ℕ) :
    (∃ s, Relation.ReflTransGen (Step cap.size) (State.initial (calls.flatMap Call.elements)) s ∧
      (Machine.after cap store calls schedule k).Shows cap s) ∧
    (Machine.after cap store calls schedule k).file <+:
      (Machine.after cap store calls schedule k).pushed.map (fun e ↦ some e.value) ∧
    ((Machine.after cap store calls schedule k).flusher = .returned →
      (Machine.after cap store calls schedule k).queue.numElements = 0 ∧
      (Machine.after cap store calls schedule k).pushed = calls.flatMap Call.elements) ∧
    ((Machine.after cap store calls schedule k).app = .joined →
      (Machine.after cap store calls schedule k).file =
        (calls.flatMap Call.elements).map (fun e ↦ some e.value)) ∧
    (Machine.after cap store calls schedule k).flusher ≠ .aborted ∧
    ∀ i ∈ (Machine.after cap store calls schedule k).app.producer.index,
      ∀ j ∈ (Machine.after cap store calls schedule k).flusher.consumer.index,
        i ≠ j ∧ i < cap.size ∧ j < cap.size := by
  have hinv := after_inv cap store calls schedule k
  have hshows := machine_shows cap store (calls.flatMap Call.elements) schedule k
  exact ⟨hshows, hinv.written, hinv.returned_empty, fun ha ↦ (hinv.joined_complete ha).2,
    hinv.not_aborted, fun i hi j hj ↦ hinv.slots hi hj⟩

end Runs

end LowLatency.Logger
