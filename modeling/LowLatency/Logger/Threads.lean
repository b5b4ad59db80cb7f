import LowLatency.Library.BoundedFifo
import LowLatency.Logger.Format
import Mathlib.Logic.Relation

namespace LowLatency.Logger

open Library.BoundedFifo

def logQueueSize : ℕ := 64 * 1024

/-- Where the application thread stands, in `log()` calls and then in `~Logger()`.
`todo` is what its remaining calls will push. -/
inductive App
  | pushing (todo : List LogElement)
  | waiting (e : LogElement) (todo : List LogElement)
  | storing (e : LogElement) (todo : List LogElement)
  | draining
  | stopping
  | joining
  | joined

inductive Flusher
  | checking
  | fetching
  | holding
  | releasing
  | sleeping
  | returned
  deriving DecidableEq

/-- `file` lists what was passed to `file_ <<`; `pushed` lists what was published. -/
structure State where
  queue : List LogElement
  running : Bool
  app : App
  flusher : Flusher
  file : List (Option Value)
  pushed : List LogElement

def State.initial (program : List LogElement) : State :=
  ⟨[], true, .pushing program, .checking, [], []⟩

/-- One action of either thread. The queue operations are those of a bounded
first-in first-out queue. -/
inductive Step (n : ℕ) (s : State) : State → Prop
  -- pushValue(const LogElement&)
  | full {e : LogElement} {todo : List LogElement}
      (ha : s.app = .pushing (e :: todo) ∨ s.app = .waiting e todo) (hq : s.queue.length = n) :
      Step n s { s with app := .waiting e todo }
  | slot {e : LogElement} {todo : List LogElement}
      (ha : s.app = .pushing (e :: todo) ∨ s.app = .waiting e todo) (hq : s.queue.length ≠ n) :
      Step n s { s with app := .storing e todo }
  | publish {e : LogElement} {todo q : List LogElement} (ha : s.app = .storing e todo)
      (hq : FifoStep n s.queue (.enqueue e) q) :
      Step n s { s with queue := q, app := .pushing todo, pushed := s.pushed ++ [e] }
  -- ~Logger()
  | destroy (ha : s.app = .pushing []) : Step n s { s with app := .draining }
  | drainWait (ha : s.app = .draining) (hq : s.queue.length ≠ 0) : Step n s s
  | drained (ha : s.app = .draining) (hq : s.queue.length = 0) :
      Step n s { s with app := .stopping }
  | stop (ha : s.app = .stopping) : Step n s { s with app := .joining, running := false }
  | join (ha : s.app = .joining) (hf : s.flusher = .returned) : Step n s { s with app := .joined }
  -- flushQueue()
  | checkRunning (hf : s.flusher = .checking) (hr : s.running = true) :
      Step n s { s with flusher := .fetching }
  | checkStopped (hf : s.flusher = .checking) (hr : s.running = false) :
      Step n s { s with flusher := .returned }
  | fetchNone (hf : s.flusher = .fetching) (hq : s.queue = []) :
      Step n s { s with flusher := .sleeping }
  | fetchSome (hf : s.flusher = .fetching) (hq : s.queue ≠ []) :
      Step n s { s with flusher := .holding }
  | write {e : LogElement} {rest : List LogElement} (hf : s.flusher = .holding)
      (hq : s.queue = e :: rest) :
      Step n s { s with flusher := .releasing, file := s.file ++ [e.member] }
  | release {e : LogElement} {q : List LogElement} (hf : s.flusher = .releasing)
      (hq : FifoStep n s.queue (.dequeue e) q) :
      Step n s { s with queue := q, flusher := .fetching }
  | wake (hf : s.flusher = .sleeping) : Step n s { s with flusher := .checking }

def App.pending : App → List LogElement
  | .pushing todo => todo
  | .waiting e todo | .storing e todo => e :: todo
  | _ => []

def App.Drained : App → Prop
  | .stopping | .joining | .joined => True
  | _ => False

def App.Stopped : App → Prop
  | .joining | .joined => True
  | _ => False

def App.HasSlot : App → Prop
  | .storing _ _ => True
  | _ => False

def State.inHand (s : State) : List LogElement :=
  if s.flusher = .releasing then s.queue.take 1 else []

structure Inv (n : ℕ) (program : List LogElement) (s : State) : Prop where
  bound : s.queue.length ≤ n
  room : s.app.HasSlot → s.queue.length < n
  order : s.pushed ++ s.app.pending = program
  split : ∃ w, s.pushed = w ++ s.queue ∧ s.file = (w ++ s.inHand).map LogElement.member
  held : s.flusher = .holding ∨ s.flusher = .releasing → s.queue ≠ []
  drained : s.app.Drained → s.queue = []
  running : s.running = false ↔ s.app.Stopped
  returned : s.flusher = .returned → s.running = false
  joined : s.app = .joined → s.flusher = .returned

theorem initial_inv (n : ℕ) (program : List LogElement) :
    Inv n program (State.initial program) := by
  refine ⟨Nat.zero_le _, ?_, rfl, ⟨[], rfl, rfl⟩, ?_, ?_, ?_, ?_, ?_⟩ <;>
    simp [State.initial, App.HasSlot, App.Drained, App.Stopped]

section Preservation

variable {n : ℕ} {program : List LogElement} {s : State} {e : LogElement} {todo q : List LogElement}

theorem Inv.move (h : Inv n program s) {a : App} (hp : a.pending = s.app.pending)
    (hd : ¬ s.app.Drained ∧ ¬ a.Drained) (hst : ¬ s.app.Stopped ∧ ¬ a.Stopped)
    (hj : a ≠ .joined) (hr : a.HasSlot → s.queue.length < n) :
    Inv n program { s with app := a } where
  bound := h.bound
  room := hr
  order := by
    simp only [hp]
    exact h.order
  split := h.split
  held := h.held
  drained hda := absurd hda hd.2
  running := h.running.trans (iff_of_false hst.1 hst.2)
  returned := h.returned
  joined hja := absurd hja hj

theorem Inv.seek (h : Inv n program s)
    (ha : s.app = .pushing (e :: todo) ∨ s.app = .waiting e todo) {a : App}
    (hp : a = .waiting e todo ∨ a = .storing e todo ∧ s.queue.length ≠ n) :
    Inv n program { s with app := a } := by
  have hb := h.bound
  rcases ha with ha | ha <;> rcases hp with rfl | ⟨rfl, hq⟩ <;>
    exact h.move (by simp [ha, App.pending]) (by simp [ha, App.Drained])
      (by simp [ha, App.Stopped]) (by simp) (by simp [App.HasSlot] <;> omega)

theorem Inv.publish (h : Inv n program s) (ha : s.app = .storing e todo)
    (hq : FifoStep n s.queue (.enqueue e) q) :
    Inv n program { s with queue := q, app := .pushing todo, pushed := s.pushed ++ [e] } := by
  obtain ⟨w, hw, hfile⟩ := h.split
  obtain ⟨hlt, rfl⟩ := enqueue_iff.mp hq
  have horder := h.order
  have hrun := h.running
  rw [ha] at horder hrun
  refine ⟨?_, by simp [App.HasSlot], ?_, ⟨w, by simp [hw], ?_⟩, fun _ ↦ by simp,
    by simp [App.Drained], ?_, h.returned, by simp⟩
  · rw [List.length_append]
    exact hlt
  · simpa [App.pending] using horder
  · rw [hfile]
    simp only [State.inHand]
    split
    next hf =>
      -- The element in hand is still the oldest one.
      obtain ⟨x, xs, hx⟩ := List.exists_cons_of_ne_nil (h.held (.inr hf))
      simp [hx]
    next => rfl
  · simpa [App.Stopped] using hrun

theorem Inv.goTo (h : Inv n program s) {f : Flusher} (hs : s.flusher ≠ .releasing)
    (hf : f ≠ .releasing) (hh : f = .holding → s.queue ≠ [])
    (hr : f = .returned → s.running = false) (hne : s.flusher ≠ .returned) :
    Inv n program { s with flusher := f } where
  bound := h.bound
  room := h.room
  order := h.order
  split := by
    obtain ⟨w, hw, hfile⟩ := h.split
    refine ⟨w, hw, ?_⟩
    simpa [State.inHand, hs, hf] using hfile
  held ho := hh (ho.resolve_right hf)
  drained := h.drained
  running := h.running
  returned := hr
  joined hj := absurd (h.joined hj) hne

theorem Inv.write (h : Inv n program s) {rest : List LogElement} (hf : s.flusher = .holding)
    (hq : s.queue = e :: rest) :
    Inv n program { s with flusher := .releasing, file := s.file ++ [e.member] } where
  bound := h.bound
  room := h.room
  order := h.order
  split := by
    obtain ⟨w, hw, hfile⟩ := h.split
    refine ⟨w, hw, ?_⟩
    simp only [State.inHand, hf, reduceCtorEq, if_false, List.append_nil] at hfile
    simp [State.inHand, hfile, hq]
  held _ := by simp [hq]
  drained := h.drained
  running := h.running
  returned := nofun
  joined hj := by simpa [hf] using h.joined hj

theorem Inv.release (h : Inv n program s) (hf : s.flusher = .releasing)
    (hq : FifoStep n s.queue (.dequeue e) q) :
    Inv n program { s with queue := q, flusher := .fetching } := by
  obtain ⟨w, hw, hfile⟩ := h.split
  have hqueue := dequeue_iff.mp hq
  simp only [State.inHand, hf, if_true, hqueue, List.take_succ_cons, List.take_zero] at hfile
  have hle : q.length ≤ s.queue.length := by simp [hqueue]
  refine ⟨Nat.le_trans hle h.bound, fun hs ↦ Nat.lt_of_le_of_lt hle (h.room hs), h.order,
    ⟨w ++ [e], by simp [hw, hqueue], ?_⟩, by simp, fun hd ↦ ?_, h.running, by simp, fun hj ↦ ?_⟩
  · simpa [State.inHand] using hfile
  · simpa [hqueue] using h.drained hd
  · simpa [hf] using h.joined hj

theorem Inv.step (h : Inv n program s) {t : State} (hs : Step n s t) : Inv n program t := by
  cases hs with
  | full ha hq => exact h.seek ha (.inl rfl)
  | slot ha hq => exact h.seek ha (.inr ⟨rfl, hq⟩)
  | publish ha hq => exact h.publish ha hq
  | destroy ha =>
    exact h.move (by simp [ha, App.pending]) (by simp [ha, App.Drained])
      (by simp [ha, App.Stopped]) (by simp) (by simp [App.HasSlot])
  | drainWait ha hq => exact h
  | drained ha hq =>
    have horder := h.order
    have hrun := h.running
    rw [ha] at horder hrun
    exact ⟨h.bound, by simp [App.HasSlot], horder, h.split, h.held,
      fun _ ↦ List.length_eq_zero_iff.mp hq, hrun, h.returned, by simp⟩
  | stop ha =>
    have horder := h.order
    rw [ha] at horder
    exact ⟨h.bound, by simp [App.HasSlot], horder, h.split, h.held,
      fun _ ↦ h.drained (by simp [ha, App.Drained]), by simp [App.Stopped], fun _ ↦ rfl, by simp⟩
  | join ha hf =>
    have horder := h.order
    have hrun := h.running
    rw [ha] at horder hrun
    exact ⟨h.bound, by simp [App.HasSlot], horder, h.split, h.held,
      fun _ ↦ h.drained (by simp [ha, App.Drained]), hrun, h.returned, fun _ ↦ hf⟩
  | checkRunning hf hr | fetchNone hf hq | wake hf =>
    exact h.goTo (by simp [hf]) (by simp) (by simp) (by simp) (by simp [hf])
  | checkStopped hf hr =>
    exact h.goTo (by simp [hf]) (by simp) (by simp) (fun _ ↦ hr) (by simp [hf])
  | fetchSome hf hq =>
    exact h.goTo (by simp [hf]) (by simp) (fun _ ↦ hq) (by simp) (by simp [hf])
  | write hf hq => exact h.write hf hq
  | release hf hq => exact h.release hf hq

end Preservation

theorem run_inv {n : ℕ} {program : List LogElement} {s : State}
    (h : Relation.ReflTransGen (Step n) (State.initial program) s) : Inv n program s := by
  induction h with
  | refl => exact initial_inv n program
  | tail _ hs ih => exact ih.step hs

theorem Inv.file_prefix {n : ℕ} {program : List LogElement} {s : State} (h : Inv n program s) :
    s.file <+: s.pushed.map LogElement.member := by
  obtain ⟨w, hw, hfile⟩ := h.split
  rw [hfile, hw]
  refine (List.prefix_append_right_inj w |>.mpr ?_).map _
  unfold State.inHand
  split
  · exact List.take_prefix 1 s.queue
  · exact List.nil_prefix

theorem Inv.stopped {n : ℕ} {program : List LogElement} {s : State} (h : Inv n program s)
    (hr : s.running = false) : s.queue = [] ∧ s.app.pending = [] := by
  have hst := h.running.mp hr
  cases ha : s.app with
  | joining | joined =>
    exact ⟨h.drained (by simp [ha, App.Drained]), by simp [App.pending]⟩
  | pushing _ | waiting _ _ | storing _ _ | draining | stopping => simp [ha, App.Stopped] at hst

theorem Inv.joined_file {n : ℕ} {program : List LogElement} {s : State} (h : Inv n program s)
    (hj : s.app = .joined) : s.file = s.pushed.map LogElement.member ∧ s.pushed = program := by
  have hret := h.joined hj
  obtain ⟨w, hw, hfile⟩ := h.split
  have hq : s.queue = [] := h.drained (by simp [hj, App.Drained])
  have horder := h.order
  rw [hj] at horder
  refine ⟨?_, by simpa [App.pending] using horder⟩
  simpa [State.inHand, hret, hw, hq] using hfile

theorem Inv.pushed_members {n : ℕ} {calls : List Call} {s : State}
    (h : Inv n (calls.flatMap Call.elements) s) :
    s.pushed.map LogElement.member = s.pushed.map (fun e ↦ some e.value) := by
  have hpre : s.pushed <+: calls.flatMap Call.elements := ⟨_, h.order⟩
  apply List.map_congr_left
  intro e he
  obtain ⟨call, -, hcall⟩ := List.mem_flatMap.mp (hpre.subset he)
  exact call.elements_wellTyped e hcall

/-- For every list of `log()` calls followed by the destructor, and every
interleaving with `flushQueue()`: the file holds the pushed values in order,
each read from the member that was stored; the background thread returns only
when nothing is queued or waiting to be; after the join nothing is missing. -/
theorem run_loses_nothing (calls : List Call) {s : State}
    (h : Relation.ReflTransGen (Step logQueueSize)
      (State.initial (calls.flatMap Call.elements)) s) :
    s.pushed <+: calls.flatMap Call.elements ∧
    s.file <+: s.pushed.map (fun e ↦ some e.value) ∧
    (s.flusher = .returned → s.queue = [] ∧ s.app.pending = []) ∧
    (s.app = .joined → s.file = s.pushed.map (fun e ↦ some e.value) ∧
      s.pushed = calls.flatMap Call.elements) := by
  have hinv := run_inv h
  rw [← hinv.pushed_members]
  exact ⟨⟨_, hinv.order⟩, hinv.file_prefix, fun hf ↦ hinv.stopped (hinv.returned hf),
    hinv.joined_file⟩

theorem run_loses_nothing_one :
    ∃ s : State, s.app = .joined ∧ s.file = [some (.c 0x41)] := by
  have hrun : Relation.ReflTransGen (Step logQueueSize)
      (State.initial ([⟨[0x41], []⟩].flatMap Call.elements)) _ :=
    ((((((((((((Relation.ReflTransGen.refl.tail
      (@Step.slot _ _ (pushChar 0x41) [] (.inl rfl) (by decide))).tail
      (.publish rfl (enqueue_iff.mpr ⟨by decide, rfl⟩))).tail
      (.checkRunning rfl rfl)).tail (.fetchSome rfl (by decide))).tail (.write rfl rfl)).tail
      (.release rfl (dequeue_iff.mpr rfl))).tail (.destroy rfl)).tail (.drained rfl rfl)).tail
      (.stop rfl)).tail (.fetchNone rfl rfl)).tail (.wake rfl)).tail
      (.checkStopped rfl rfl)).tail (.join rfl rfl)
  have hres := (run_loses_nothing _ hrun).2.2.2 rfl
  exact ⟨_, rfl, hres.1⟩

end LowLatency.Logger
