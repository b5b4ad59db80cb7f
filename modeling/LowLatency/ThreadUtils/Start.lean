import LowLatency.Library.Fairness
import Mathlib.Data.Option.Basic

namespace LowLatency.ThreadUtils

open Library.Fairness

variable {σ : Type*}

def cpuSetSize : ℤ := 1024

/-- The question put to `pthread_setaffinity_np()` is whether this core may be used. -/
def setThreadCore (setAffinity : ℕ → Bool) (coreId : ℤ) : Bool :=
  if coreId < 0 ∨ coreId ≥ cpuSetSize then false else setAffinity coreId.toNat

/-- A call of `createAndStartThread()`. The task goes on from its arguments step
by step until it has no next state. -/
structure Call (σ : Type*) where
  coreId : ℤ
  task : σ → Option σ
  args : σ
  setAffinity : ℕ → Bool
  threadStarts : Bool

structure Flags where
  running : Bool
  failed : Bool

inductive Caller
  | constructing
  -- while (!running.load() && !failed.load())
  | loadRunning
  | loadFailed
  -- if (failed.load())
  | testing
  | joining
  | thrown
  | systemError
  | returned
  deriving DecidableEq

inductive Thread (σ : Type*)
  | absent
  | entered
  | reporting
  | failing
  | announcing
  | invoking (s : σ)
  | returnedEarly
  | finished
  | dangling

/-- `frame` is gone once the caller has left the function. -/
structure State (σ : Type*) where
  frame : Option Flags
  caller : Caller
  thread : Thread σ
  cerr : List String

def State.initial : State σ := ⟨some ⟨false, false⟩, .constructing, .absent, []⟩

def affinityMessage (coreId : ℤ) : String :=
  "Failed to set thread affinity to CPU " ++ toString coreId ++ "\n"

def State.leave (s : State σ) (c : Caller) : State σ := { s with frame := none, caller := c }

def Thread.ended : Thread σ → Bool
  | .returnedEarly | .finished => true
  | _ => false

inductive Party
  | caller
  | thread
  deriving DecidableEq

namespace Call

variable (call : Call σ)

def callerStep (s : State σ) : State σ :=
  match s.caller, s.frame with
  | .constructing, _ =>
    if call.threadStarts then { s with caller := .loadRunning, thread := .entered }
    else s.leave .systemError
  | .loadRunning, some flags =>
    if flags.running then { s with caller := .testing } else { s with caller := .loadFailed }
  | .loadFailed, some flags =>
    if flags.failed then { s with caller := .testing } else { s with caller := .loadRunning }
  | .testing, some flags =>
    if flags.failed then { s with caller := .joining } else s.leave .returned
  | .joining, _ => if s.thread.ended then s.leave .thrown else s
  | _, _ => s

def store (set : Flags → Flags) (next : Thread σ) (s : State σ) : State σ :=
  match s.frame with
  | some flags => { s with frame := some (set flags), thread := next }
  | none => { s with thread := .dangling }

def threadStep (s : State σ) : State σ :=
  match s.thread with
  | .entered =>
    if call.coreId ≥ 0 then
      if setThreadCore call.setAffinity call.coreId then { s with thread := .announcing }
      else { s with thread := .reporting }
    else { s with thread := .announcing }
  | .reporting =>
    { s with thread := .failing, cerr := s.cerr ++ [affinityMessage call.coreId] }
  | .failing => store (fun flags ↦ { flags with failed := true }) .returnedEarly s
  | .announcing => store (fun flags ↦ { flags with running := true }) (.invoking call.args) s
  | .invoking t =>
    match call.task t with
    | some t' => { s with thread := .invoking t' }
    | none => { s with thread := .finished }
  | .absent | .returnedEarly | .finished | .dangling => s

def step : Party → State σ → State σ
  | .caller, s => call.callerStep s
  | .thread, s => call.threadStep s

/-- The setup of the new thread succeeds. -/
def SetupOk : Prop := 0 ≤ call.coreId → setThreadCore call.setAffinity call.coreId = true

instance : Decidable call.SetupOk := inferInstanceAs (Decidable (_ → _))

end Call

section Invariant

def Thread.flags : Thread σ → Flags
  | .returnedEarly => ⟨false, true⟩
  | .invoking _ | .finished => ⟨true, false⟩
  | _ => ⟨false, false⟩

def Thread.Started : Thread σ → Prop
  | .invoking _ | .finished => True
  | _ => False

def Thread.report (call : Call σ) : Thread σ → List String
  | .failing | .returnedEarly => [affinityMessage call.coreId]
  | _ => []

/-- The task has come from its arguments to this state. -/
def Call.TaskAt (call : Call σ) (t : σ) : Prop :=
  Relation.ReflTransGen (fun a b ↦ call.task a = some b) call.args t

def Thread.Fits (call : Call σ) : Thread σ → Prop
  | .absent | .entered => True
  | .reporting | .failing | .returnedEarly => ¬ call.SetupOk
  | .announcing => call.SetupOk
  | .invoking t => call.SetupOk ∧ call.TaskAt t
  | .finished => call.SetupOk ∧ ∃ t, call.TaskAt t ∧ call.task t = none
  | .dangling => False

def Caller.left : Caller → Bool
  | .thrown | .systemError | .returned => true
  | _ => false

def Caller.Fits (call : Call σ) (thread : Thread σ) : Caller → Prop
  | .constructing => thread = .absent
  | .systemError => thread = .absent ∧ call.threadStarts = false
  | .loadRunning | .loadFailed => thread ≠ .absent ∧ call.threadStarts = true
  | .testing => (thread.Started ∨ thread = .returnedEarly) ∧ call.threadStarts = true
  | .joining | .thrown => thread = .returnedEarly ∧ call.threadStarts = true
  | .returned => thread.Started ∧ call.threadStarts = true

/-- The flags live until the caller has left, and are then in nobody's hands. -/
structure Inv (call : Call σ) (s : State σ) : Prop where
  thread : s.thread.Fits call
  caller : s.caller.Fits call s.thread
  frame : s.frame = if s.caller.left then none else some s.thread.flags
  cerr : s.cerr = s.thread.report call

theorem initial_inv (call : Call σ) : Inv call State.initial := ⟨trivial, rfl, rfl, rfl⟩

theorem Thread.running_iff (t : Thread σ) : t.flags.running = true ↔ t.Started := by
  cases t <;> simp [Thread.flags, Thread.Started]

theorem Thread.failed_iff (t : Thread σ) : t.flags.failed = true ↔ t = .returnedEarly := by
  cases t <;> simp [Thread.flags]

variable {call : Call σ} {s : State σ}

theorem Inv.callerStep (h : Inv call s) : Inv call (call.callerStep s) := by
  obtain ⟨frame, caller, thread, cerr⟩ := s
  obtain ⟨hthread, hcaller, hframe, hcerr⟩ := h
  simp only at hthread hcaller hframe hcerr
  subst hframe
  cases caller with
  | constructing =>
    obtain rfl : thread = .absent := hcaller
    by_cases hs : call.threadStarts = true
    · simp only [Call.callerStep, if_pos hs]
      exact ⟨trivial, ⟨by simp, hs⟩, rfl, hcerr⟩
    · simp only [Call.callerStep, if_neg hs]
      exact ⟨trivial, ⟨rfl, by simpa using hs⟩, rfl, hcerr⟩
  | loadRunning =>
    simp only [Call.callerStep, Caller.left, Bool.false_eq_true, if_false]
    split
    next hr => exact ⟨hthread, ⟨.inl (thread.running_iff.mp hr), hcaller.2⟩, rfl, hcerr⟩
    next => exact ⟨hthread, hcaller, rfl, hcerr⟩
  | loadFailed =>
    simp only [Call.callerStep, Caller.left, Bool.false_eq_true, if_false]
    split
    next hf => exact ⟨hthread, ⟨.inr (thread.failed_iff.mp hf), hcaller.2⟩, rfl, hcerr⟩
    next => exact ⟨hthread, hcaller, rfl, hcerr⟩
  | testing =>
    simp only [Call.callerStep, Caller.left, Bool.false_eq_true, if_false]
    split
    next hf => exact ⟨hthread, ⟨thread.failed_iff.mp hf, hcaller.2⟩, rfl, hcerr⟩
    next hf =>
      -- One of the flags was seen, and it is not `failed`.
      have hstarted : thread.Started := hcaller.1.resolve_right (mt thread.failed_iff.mpr hf)
      exact ⟨hthread, ⟨hstarted, hcaller.2⟩, rfl, hcerr⟩
  | joining =>
    obtain ⟨rfl, hs⟩ := hcaller
    exact ⟨hthread, ⟨rfl, hs⟩, rfl, hcerr⟩
  | thrown | systemError | returned => exact ⟨hthread, hcaller, rfl, hcerr⟩

theorem Caller.Fits.waiting {c : Caller} {t : Thread σ} (h : c.Fits call t) (ha : t ≠ .absent)
    (hs : ¬ t.Started) (hf : t ≠ .returnedEarly) :
    (c = .loadRunning ∨ c = .loadFailed) ∧ call.threadStarts = true := by
  cases c with
  | loadRunning => exact ⟨.inl rfl, h.2⟩
  | loadFailed => exact ⟨.inr rfl, h.2⟩
  | constructing => exact absurd h ha
  | systemError => exact absurd h.1 ha
  | testing => exact absurd h.1 (by simp [hs, hf])
  | joining | thrown => exact absurd h.1 hf
  | returned => exact absurd h.1 hs

theorem inv_of_waiting (t : Thread σ) {c : Caller} (hc : c = .loadRunning ∨ c = .loadFailed)
    (hs : call.threadStarts = true) (ht : t.Fits call) (ha : t ≠ .absent) :
    Inv call ⟨some t.flags, c, t, t.report call⟩ := by
  rcases hc with rfl | rfl <;> exact ⟨ht, ⟨ha, hs⟩, rfl, rfl⟩

theorem Inv.eq_waiting (h : Inv call s) (ha : s.thread ≠ .absent) (hs : ¬ s.thread.Started)
    (hf : s.thread ≠ .returnedEarly) :
    (s.caller = .loadRunning ∨ s.caller = .loadFailed) ∧ call.threadStarts = true ∧
      s = ⟨some s.thread.flags, s.caller, s.thread, s.thread.report call⟩ := by
  obtain ⟨hc, hstarts⟩ := h.caller.waiting ha hs hf
  refine ⟨hc, hstarts, ?_⟩
  have hleft : s.caller.left = false := by rcases hc with hc | hc <;> rw [hc] <;> rfl
  have hframe := h.frame
  rw [hleft] at hframe
  rw [← h.cerr, ← show s.frame = some s.thread.flags from hframe]

theorem Caller.Fits.of_started {c : Caller} {t t' : Thread σ} (h : c.Fits call t)
    (ht : t.Started) (ht' : t'.Started) : c.Fits call t' := by
  have hne : ∀ u : Thread σ, u.Started → u ≠ .absent ∧ u ≠ .returnedEarly := by
    intro u hu
    constructor
    all_goals
      intro heq
      rw [heq] at hu
      exact hu
  cases c with
  | constructing => exact absurd h (hne t ht).1
  | systemError => exact absurd h.1 (hne t ht).1
  | loadRunning | loadFailed => exact ⟨(hne t' ht').1, h.2⟩
  | testing => exact ⟨.inl ht', h.2⟩
  | joining | thrown => exact absurd h.1 (hne t ht).2
  | returned => exact ⟨ht', h.2⟩

theorem Inv.threadStep_invoking (h : Inv call s) {t : σ} (ht : s.thread = .invoking t) :
    Inv call (call.threadStep s) := by
  obtain ⟨frame, caller, thread, cerr⟩ := s
  obtain ⟨hthread, hcaller, hframe, hcerr⟩ := h
  simp only at ht
  subst ht
  obtain ⟨hok, hat⟩ := hthread
  simp only [Call.threadStep]
  split
  next t' hnext =>
    exact ⟨⟨hok, hat.tail hnext⟩, hcaller.of_started trivial trivial, hframe, hcerr⟩
  next hnone => exact ⟨⟨hok, t, hat, hnone⟩, hcaller.of_started trivial trivial, hframe, hcerr⟩

theorem threadStep_waiting {c : Caller} {t : Thread σ} (hc : c = .loadRunning ∨ c = .loadFailed)
    (hs : call.threadStarts = true) (ht : t.Fits call) (ha : t ≠ .absent) :
    Inv call (call.threadStep ⟨some t.flags, c, t, t.report call⟩) := by
  cases t with
  | absent => exact absurd rfl ha
  | entered =>
    simp only [Call.threadStep]
    split
    next hcore =>
      split
      next hset => exact inv_of_waiting .announcing hc hs (fun _ ↦ hset) (by simp)
      next hset => exact inv_of_waiting .reporting hc hs (fun hok ↦ hset (hok hcore)) (by simp)
    next hcore =>
      exact inv_of_waiting .announcing hc hs (fun hnonneg ↦ absurd hnonneg hcore) (by simp)
  | reporting => exact inv_of_waiting .failing hc hs ht (by simp)
  | failing => exact inv_of_waiting .returnedEarly hc hs ht (by simp)
  | announcing => exact inv_of_waiting (.invoking call.args) hc hs ⟨ht, .refl⟩ (by simp)
  | invoking t => exact (inv_of_waiting _ hc hs ht ha).threadStep_invoking rfl
  | returnedEarly | finished | dangling => exact inv_of_waiting _ hc hs ht ha

theorem Inv.threadStep (h : Inv call s) : Inv call (call.threadStep s) := by
  cases ht : s.thread with
  | invoking t => exact h.threadStep_invoking ht
  | absent | returnedEarly | finished | dangling =>
    simp only [Call.threadStep, ht]
    exact h
  | entered | reporting | failing | announcing =>
    obtain ⟨hc, hstarts, hs⟩ := h.eq_waiting (by simp [ht]) (by simp [ht, Thread.Started])
      (by simp [ht])
    have hfits := h.thread
    rw [ht] at hs hfits
    rw [hs]
    exact threadStep_waiting hc hstarts hfits (by simp)

theorem Inv.step (h : Inv call s) (p : Party) : Inv call (call.step p s) := by
  cases p with
  | caller => exact h.callerStep
  | thread => exact h.threadStep

end Invariant

section Runs

variable {call : Call σ} {s : State σ}

def Call.after (call : Call σ) (schedule : ℕ → Party) (k : ℕ) : State σ :=
  states call.step schedule State.initial k

theorem after_inv (call : Call σ) (schedule : ℕ → Party) (k : ℕ) :
    Inv call (call.after schedule k) :=
  states_invariant (fun p _ h ↦ h.step p) (initial_inv call) schedule k

def Call.outcome (call : Call σ) : Caller :=
  if call.threadStarts then if call.SetupOk then .returned else .thrown else .systemError

theorem Inv.outcome_eq (h : Inv call s) (hl : s.caller.left = true) : s.caller = call.outcome := by
  have hcaller := h.caller
  have hthread := h.thread
  cases hc : s.caller with
  | thrown =>
    rw [hc] at hcaller
    obtain ⟨ht, hs⟩ := hcaller
    rw [ht] at hthread
    rw [Call.outcome, if_pos hs, if_neg hthread]
  | returned =>
    rw [hc] at hcaller
    obtain ⟨ht, hs⟩ := hcaller
    have hok : call.SetupOk := by
      cases hst : s.thread with
      | invoking | finished =>
        rw [hst] at hthread
        exact hthread.1
      | absent | entered | reporting | failing | announcing | returnedEarly | dangling =>
        rw [hst] at ht
        cases ht
    rw [Call.outcome, if_pos hs, if_pos hok]
  | systemError =>
    rw [hc] at hcaller
    rw [Call.outcome, hcaller.2]
    rfl
  | constructing | loadRunning | loadFailed | testing | joining =>
    rw [hc] at hl
    cases hl

/-- For every core, every answer of the system and every interleaving of the
caller with the new thread: the flags in the caller's frame are never touched
once the frame is gone; an exception is thrown only when the pinning failed and
after the new thread has ended without running the task; the task runs only
from its arguments and only after a successful setup; and when the function
returns, the new thread has stored `running` and entered the call of the task. -/
theorem start_safe (call : Call σ) (schedule : ℕ → Party) (k : ℕ) :
    (call.after schedule k).thread.Fits call ∧
    (call.after schedule k).cerr = (call.after schedule k).thread.report call ∧
    ((call.after schedule k).frame = none ↔ (call.after schedule k).caller.left = true) ∧
    ((call.after schedule k).caller.left = true →
      (call.after schedule k).caller = call.outcome) ∧
    ((call.after schedule k).caller = .returned → (call.after schedule k).thread.Started) ∧
    ((call.after schedule k).caller = .thrown →
      (call.after schedule k).thread = .returnedEarly) := by
  have h := after_inv call schedule k
  have hcaller := h.caller
  refine ⟨h.thread, h.cerr, ?_, h.outcome_eq, fun hc ↦ ?_, fun hc ↦ ?_⟩
  · rw [h.frame]
    cases (call.after schedule k).caller.left <;> simp
  · rw [hc] at hcaller
    exact hcaller.1
  · rw [hc] at hcaller
    exact hcaller.1

end Runs

section Progress

variable {call : Call σ} {s : State σ}

def Thread.left : Thread σ → ℕ
  | .absent => 4
  | .entered => 3
  | .reporting => 2
  | .failing | .announcing => 1
  | .invoking _ | .returnedEarly | .finished | .dangling => 0

def Caller.pending (t : Thread σ) : Caller → ℕ
  | .constructing => 6
  | .loadRunning => if t.left = 0 then 4 else 5
  | .loadFailed => if t.flags.failed then 3 else 5
  | .testing => 2
  | .joining => 1
  | .thrown | .systemError | .returned => 0

def State.rank (s : State σ) : ℕ := 10 * s.thread.left + s.caller.pending s.thread

def State.helpful (s : State σ) : Party :=
  if s.thread.left = 0 ∨ s.caller = .constructing then .caller else .thread

theorem Thread.left_eq_zero {t : Thread σ} (h : t.Fits call) :
    t.left = 0 ↔ t.flags.running = true ∨ t.flags.failed = true := by
  cases t <;> simp [Thread.left, Thread.flags, Thread.Fits] at h ⊢

theorem Caller.pending_le (c : Caller) (t : Thread σ) : c.pending t ≤ 6 := by
  unfold Caller.pending
  split <;> first | omega | split <;> omega

theorem State.rank_lt {s s' : State σ} (h : s'.thread.left < s.thread.left) : s'.rank < s.rank := by
  have hle := s'.caller.pending_le s'.thread
  simp only [State.rank]
  omega

theorem State.helpful_caller {s : State σ} (h : s.thread.left = 0) : s.helpful = .caller :=
  if_pos (.inl h)

theorem State.helpful_thread {f : Option Flags} {c : Caller} {t : Thread σ} {e : List String}
    (ht : t.left ≠ 0) (hc : c ≠ .constructing) : State.helpful ⟨f, c, t, e⟩ = .thread :=
  if_neg (not_or.mpr ⟨ht, hc⟩)

theorem callerStep_progress (h : Inv call s) (hl : s.caller.left = false) :
    (call.callerStep s).rank < s.rank ∨
      (call.callerStep s).rank = s.rank ∧ s.helpful = .thread ∧
        (call.callerStep s).helpful = .thread := by
  obtain ⟨frame, caller, thread, cerr⟩ := s
  obtain ⟨hthread, hcaller, hframe, -⟩ := h
  simp only at hthread hcaller hframe hl
  simp only [hl, Bool.false_eq_true, if_false] at hframe
  subst hframe
  have hzero := Thread.left_eq_zero hthread
  cases caller with
  | constructing =>
    obtain rfl : thread = .absent := hcaller
    left
    simp only [Call.callerStep]
    split <;> simp [State.rank, State.leave, Thread.left, Caller.pending]
  | loadRunning =>
    cases hr : thread.flags.running with
    | true =>
      left
      simp [Call.callerStep, hr, State.rank, Caller.pending, hzero]
    | false =>
      cases hf : thread.flags.failed with
      | true =>
        left
        simp [Call.callerStep, hr, hf, State.rank, Caller.pending, hzero]
      | false =>
        right
        have hne : thread.left ≠ 0 := by simp [hzero, hr, hf]
        simp only [Call.callerStep, hr, Bool.false_eq_true, if_false]
        refine ⟨?_, State.helpful_thread hne (by simp), State.helpful_thread hne (by simp)⟩
        simp [State.rank, Caller.pending, hne, hf]
  | loadFailed =>
    cases hf : thread.flags.failed with
    | true =>
      left
      simp [Call.callerStep, hf, State.rank, Caller.pending]
    | false =>
      by_cases hne : thread.left = 0
      · left
        simp [Call.callerStep, hf, State.rank, Caller.pending, hne]
      · right
        simp only [Call.callerStep, hf, Bool.false_eq_true, if_false]
        refine ⟨?_, State.helpful_thread hne (by simp), State.helpful_thread hne (by simp)⟩
        simp [State.rank, Caller.pending, hne, hf]
  | testing =>
    left
    simp only [Call.callerStep]
    split <;> simp [State.rank, State.leave, Caller.pending]
  | joining =>
    obtain ⟨rfl, -⟩ := hcaller
    left
    simp [Call.callerStep, Thread.ended, State.rank, State.leave, Caller.pending]
  | thrown | systemError | returned => cases hl

/-- Until a flag is set each turn of the new thread brings it nearer; the task
itself is no concern of the caller. -/
theorem threadStep_progress (h : Inv call s) (hl : s.caller.left = false) :
    (call.threadStep s).rank < s.rank ∨
      (call.threadStep s).rank = s.rank ∧ s.helpful = .caller ∧
        (call.threadStep s).helpful = .caller := by
  obtain ⟨frame, caller, thread, cerr⟩ := s
  obtain ⟨hthread, hcaller, hframe, -⟩ := h
  simp only at hthread hcaller hframe hl
  simp only [hl, Bool.false_eq_true, if_false] at hframe
  subst hframe
  cases thread with
  | absent =>
    right
    obtain rfl : caller = .constructing := by
      cases caller with
      | constructing => rfl
      | loadRunning | loadFailed => exact absurd rfl hcaller.1
      | testing => simp [Caller.Fits, Thread.Started] at hcaller
      | joining => simp [Caller.Fits] at hcaller
      | thrown | systemError | returned => cases hl
    exact ⟨rfl, if_pos (.inr rfl), if_pos (.inr rfl)⟩
  | entered =>
    left
    apply State.rank_lt
    simp only [Call.threadStep]
    split
    · split <;> simp [Thread.left]
    · simp [Thread.left]
  | reporting | failing | announcing =>
    left
    apply State.rank_lt
    simp [Call.threadStep, Call.store, Thread.left]
  | invoking t =>
    right
    simp only [Call.threadStep]
    split <;> exact ⟨rfl, State.helpful_caller rfl, State.helpful_caller rfl⟩
  | returnedEarly | finished =>
    right
    exact ⟨rfl, State.helpful_caller rfl, State.helpful_caller rfl⟩
  | dangling => cases hthread

theorem start_ranking (call : Call σ) (schedule : ℕ → Party) :
    Ranking (call.after schedule) 0 (fun p k ↦ schedule k = p) (fun s ↦ s.caller.left = true)
      State.rank State.helpful := by
  refine .of_turns (fun p s h ↦ h.step p) ?_ ?_ (initial_inv call) schedule
  · intro s h hl
    rw [Bool.not_eq_true] at hl
    cases hp : s.helpful with
    | caller =>
      apply (callerStep_progress h hl).resolve_right
      simp [hp]
    | thread =>
      apply (threadStep_progress h hl).resolve_right
      simp [hp]
  · intro p s h hl
    rw [Bool.not_eq_true] at hl
    cases p with
    | caller =>
      apply (callerStep_progress h hl).imp_right
      intro ⟨hrank, hp, hp'⟩
      exact ⟨hrank, hp'.trans hp.symm⟩
    | thread =>
      apply (threadStep_progress h hl).imp_right
      intro ⟨hrank, hp, hp'⟩
      exact ⟨hrank, hp'.trans hp.symm⟩

theorem Inv.cerr_eq (h : Inv call s) (hl : s.caller.left = true) :
    s.cerr = if call.outcome = .thrown then [affinityMessage call.coreId] else [] := by
  have hcaller := h.caller
  rw [h.cerr, ← h.outcome_eq hl]
  cases hc : s.caller with
  | thrown =>
    rw [hc] at hcaller
    rw [hcaller.1]
    rfl
  | returned =>
    rw [hc] at hcaller
    cases ht : s.thread with
    | invoking | finished => rfl
    | absent | entered | reporting | failing | announcing | returnedEarly | dangling =>
      rw [ht] at hcaller
      cases hcaller.1
  | systemError =>
    rw [hc] at hcaller
    rw [hcaller.1]
    rfl
  | constructing | loadRunning | loadFailed | testing | joining =>
    rw [hc] at hl
    cases hl

/-- Under a fair schedule the call ends, whether or not the task does. How it
ends and what it prints depends on the core and on the system alone. -/
theorem fair_start_ends (call : Call σ) {schedule : ℕ → Party} (hfair : Fair schedule) :
    ∃ k, (call.after schedule k).caller = call.outcome ∧
      (call.after schedule k).cerr =
        if call.outcome = .thrown then [affinityMessage call.coreId] else [] := by
  obtain ⟨k, -, hk⟩ := (start_ranking call schedule).reaches hfair
  have hinv := after_inv call schedule k
  exact ⟨k, hinv.outcome_eq hk, hinv.cerr_eq hk⟩

def takingTurns (k : ℕ) : Party := if k % 2 = 0 then .caller else .thread

theorem takingTurns_fair : Fair takingTurns := by
  intro p k
  cases p with
  | caller => exact ⟨2 * k, by omega, if_pos (by omega)⟩
  | thread => exact ⟨2 * k + 1, by omega, if_neg (by omega)⟩

/-- A task that never ends, pinned to the first core outside the set. -/
theorem fair_start_ends_invalid :
    ∃ k, (Call.after ⟨cpuSetSize, some, 0, fun _ ↦ true, true⟩ takingTurns k :
      State ℕ).caller = .thrown := by
  obtain ⟨k, hk, -⟩ := fair_start_ends (⟨cpuSetSize, some, 0, fun _ ↦ true, true⟩ : Call ℕ)
    takingTurns_fair
  exact ⟨k, hk⟩

end Progress

end LowLatency.ThreadUtils
