import LowLatency.Logger.Machine

namespace LowLatency.Logger

open Library.Words Library.Fairness LFQueue Queue

variable {cap : Capacity} {program : List LogElement} {m : Machine}

section Facts

structure Machine.Sound (cap : Capacity) (m : Machine) : Prop where
  room : m.app.place.HasSlot → m.queue.numElements < cap.size
  held : m.flusher.place = .holding ∨ m.flusher.place = .releasing → m.queue.numElements ≠ 0
  drained : m.app.place.Drained → m.queue.numElements = 0
  running : m.running = false ↔ m.app.place.Stopped
  returned : m.flusher.place = .returned → m.running = false
  not_aborted : m.flusher ≠ .aborted

theorem Machine.Inv.sound (h : m.Inv cap program) : m.Sound cap := by
  have hab := h.not_aborted
  obtain ⟨s, ⟨hrep, hs⟩, hinv⟩ := h
  have hcount := count_eq hrep
  generalize s.queue = q at hs hcount
  subst hs
  constructor
  case not_aborted => exact hab
  case running => exact hinv.running
  case returned => exact hinv.returned
  all_goals rw [hcount]
  · exact hinv.room
  · intro hf hq
    exact hinv.held hf (List.length_eq_zero_iff.mp hq)
  · intro hd
    exact List.length_eq_zero_iff.mpr (hinv.drained hd)

end Facts

section Rank

/-- The actions that the application thread still has to take, the repetitions
of its waiting loops not counted. -/
def AppCode.left : AppCode → ℕ
  | .joined => 0
  | .joining => 1
  | .stopping => 2
  | .draining => 3
  | .pushing todo => 4 + 6 * todo.length
  | .counting _ todo => 5 + 6 * todo.length
  | .advancing _ _ todo => 6 + 6 * todo.length
  | .loading _ _ todo => 7 + 6 * todo.length
  | .storing _ _ todo => 8 + 6 * todo.length
  | .addressing _ todo => 9 + 6 * todo.length
  | .waiting _ todo => 10 + 6 * todo.length

/-- How far the background thread is from releasing the next element, or from
returning. With nothing to do it goes round in a circle. -/
def Machine.lag (m : Machine) : ℕ :=
  if m.running then
    if m.queue.numElements = 0 then 9
    else
      match m.flusher with
      | .sleeping => 9
      | .checking => 8
      | .fetching => 7
      | .addressing => 6
      | .writing _ => 5
      | .asserting _ _ => 4
      | .loading _ => 3
      | .advancing _ _ => 2
      | _ => 1
  else
    match m.flusher with
    | .fetching => 3
    | .sleeping => 2
    | .checking => 1
    | _ => 0

def Machine.rank (m : Machine) : ℕ := 10 * m.app.left + 9 * m.queue.numElements + m.lag

def Machine.blocked (cap : Capacity) (m : Machine) : Bool :=
  match m.app with
  | .pushing (_ :: _) | .waiting _ _ => m.queue.numElements = cap.size
  | .draining => m.queue.numElements ≠ 0
  | .joining => m.flusher ≠ .returned
  | _ => false

def Machine.helpful (cap : Capacity) (m : Machine) : Thread :=
  if m.blocked cap then .flusher else .app

theorem Machine.lag_le (m : Machine) : m.lag ≤ 9 := by
  unfold Machine.lag
  split
  · split
    · exact le_rfl
    · split <;> decide
  · split <;> decide

end Rank

section Application

theorem appStep_blocked (h : m.blocked cap = true) :
    (m.appStep cap).rank = m.rank ∧ (m.appStep cap).blocked cap = true := by
  obtain ⟨queue, running, app, flusher, file, pushed⟩ := m
  cases app with
  | pushing todo =>
    cases todo with
    | nil => cases h
    | cons e todo =>
      have hfull : queue.numElements = cap.size := by simpa [Machine.blocked] using h
      simp only [Machine.appStep, Machine.seek, if_pos hfull]
      refine ⟨?_, by simpa [Machine.blocked] using hfull⟩
      simp [Machine.rank, AppCode.left, Machine.lag]
      omega
  | waiting e todo =>
    have hfull : queue.numElements = cap.size := by simpa [Machine.blocked] using h
    simp only [Machine.appStep, Machine.seek, if_pos hfull]
    exact ⟨trivial, h⟩
  | draining =>
    have hne : queue.numElements ≠ 0 := by simpa [Machine.blocked] using h
    simp only [Machine.appStep, if_pos hne]
    exact ⟨trivial, h⟩
  | joining =>
    have hf : flusher ≠ .returned := by simpa [Machine.blocked] using h
    simp only [Machine.appStep, if_neg hf]
    exact ⟨trivial, h⟩
  | addressing | storing | loading | advancing | counting | stopping | joined => cases h

theorem appStep_left (h : m.blocked cap = false) (hj : m.app ≠ .joined) :
    (m.appStep cap).app.left < m.app.left := by
  obtain ⟨queue, running, app, flusher, file, pushed⟩ := m
  cases app with
  | pushing todo =>
    cases todo with
    | nil => simp [Machine.appStep, AppCode.left]
    | cons e todo =>
      have hfull : queue.numElements ≠ cap.size := by simpa [Machine.blocked] using h
      simp [Machine.appStep, Machine.seek, hfull, AppCode.left]
      omega
  | waiting e todo =>
    have hfull : queue.numElements ≠ cap.size := by simpa [Machine.blocked] using h
    simp [Machine.appStep, Machine.seek, hfull, AppCode.left]
  | draining =>
    have hzero : queue.numElements = 0 := by simpa [Machine.blocked] using h
    simp [Machine.appStep, hzero, AppCode.left]
  | joining =>
    have hf : flusher = .returned := by simpa [Machine.blocked] using h
    simp [Machine.appStep, hf, AppCode.left]
  | joined => exact absurd rfl hj
  | addressing | storing | loading | advancing | counting | stopping =>
    simp [Machine.appStep, AppCode.left]

theorem increment_lag (hfits : m.queue.numElements + 1 < sizeRange) :
    Machine.lag { m with queue := m.queue.increment } ≤ m.lag := by
  have hinc : m.queue.increment.numElements = m.queue.numElements + 1 := sizeAdd_eq hfits
  by_cases hr : m.running = true
  · by_cases hq : m.queue.numElements = 0
    · refine (Machine.lag_le _).trans (le_of_eq ?_)
      simp only [Machine.lag, hr, hq, if_true]
    · simp only [Machine.lag, hr, hinc, hq, if_true, if_false, Nat.add_one_ne_zero]
      exact le_rfl
  · simp only [Machine.lag, hr, Bool.false_eq_true, if_false]
    exact le_rfl

theorem appStep_load (h : m.Sound cap) :
    9 * (m.appStep cap).queue.numElements + (m.appStep cap).lag ≤
      9 * m.queue.numElements + m.lag + 9 := by
  have hlag := (m.appStep cap).lag_le
  suffices hnum : (m.appStep cap).queue.numElements = m.queue.numElements ∨
      (m.appStep cap).queue.numElements = m.queue.numElements + 1 ∧
        (m.appStep cap).lag ≤ m.lag by omega
  cases ha : m.app with
  | counting e todo =>
    have hroom : m.queue.numElements < cap.size := h.room (by rw [ha]; trivial)
    have hfits : m.queue.numElements + 1 < sizeRange := by
      have := cap.fits
      omega
    right
    simp only [Machine.appStep, ha]
    exact ⟨sizeAdd_eq hfits, increment_lag hfits⟩
  | pushing todo =>
    left
    cases todo with
    | nil => simp only [Machine.appStep, ha]
    | cons e todo =>
      simp only [Machine.appStep, ha, Machine.seek]
      split <;> rfl
  | waiting e todo =>
    left
    simp only [Machine.appStep, ha, Machine.seek]
    split <;> rfl
  | draining | joining =>
    left
    simp only [Machine.appStep, ha]
    split <;> rfl
  | addressing | loading | stopping | joined =>
    left
    simp only [Machine.appStep, ha]
  | storing | advancing =>
    left
    simp only [Machine.appStep, ha]
    rfl

theorem appStep_lowers (h : m.Sound cap) (hb : m.blocked cap = false) (hj : m.app ≠ .joined) :
    (m.appStep cap).rank < m.rank := by
  have hleft := appStep_left hb hj
  have hload := appStep_load h
  simp only [Machine.rank]
  omega

end Application

section Background

/-- There is something for the background thread to do. -/
def Machine.Busy (m : Machine) : Prop :=
  m.running = true ∧ m.queue.numElements ≠ 0 ∨ m.running = false ∧ m.flusher ≠ .returned

theorem Machine.Sound.stopped (h : m.Sound cap) (hr : m.running = false) :
    m.queue.numElements = 0 := by
  apply h.drained
  have hst := h.running.mp hr
  cases ha : m.app.place with
  | joining | joined => trivial
  | pushing | waiting | storing | draining | stopping => simp [ha, App.Stopped] at hst

theorem flusherStep_lowers_running (h : m.Sound cap) (hr : m.running = true)
    (hq : m.queue.numElements ≠ 0) : (m.flusherStep cap).rank < m.rank := by
  cases hf : m.flusher with
  | returned => simp [h.returned (by rw [hf]; rfl)] at hr
  | aborted => exact absurd hf h.not_aborted
  | counting e =>
    have hdec : m.queue.decrement.numElements = m.queue.numElements - 1 :=
      sizeSub_eq (Nat.pos_of_ne_zero hq)
    have hlag := (m.flusherStep cap).lag_le
    have hold : m.lag = 1 := by simp only [Machine.lag, hr, hq, hf, if_true, if_false]
    simp only [Machine.flusherStep, hf] at hlag
    simp only [Machine.rank, Machine.flusherStep, hf, hdec, hold]
    omega
  | checking | fetching | addressing | writing | asserting | loading | advancing | sleeping =>
    simp [Machine.rank, Machine.lag, Machine.flusherStep, hf, hr, hq, storeReadIndex]

theorem flusherStep_lowers_stopped (h : m.Sound cap) (hr : m.running = false)
    (hf : m.flusher ≠ .returned) : (m.flusherStep cap).rank < m.rank := by
  have hq := h.stopped hr
  cases hf' : m.flusher with
  | returned => exact absurd hf' hf
  | aborted => exact absurd hf' h.not_aborted
  | checking | fetching | sleeping =>
    simp [Machine.rank, Machine.lag, Machine.flusherStep, hf', hr, hq]
  | addressing | writing => exact absurd hq (h.held (.inl (by rw [hf']; rfl)))
  | asserting | loading | advancing | counting =>
    exact absurd hq (h.held (.inr (by rw [hf']; rfl)))

theorem flusherStep_lowers (h : m.Sound cap) (hb : m.Busy) :
    (m.flusherStep cap).rank < m.rank := by
  rcases hb with ⟨hr, hq⟩ | ⟨hr, hf⟩
  · exact flusherStep_lowers_running h hr hq
  · exact flusherStep_lowers_stopped h hr hf

theorem flusherStep_idle (h : m.Sound cap) (hb : ¬ m.Busy) :
    (m.flusherStep cap).rank = m.rank ∧
      (m.flusherStep cap).blocked cap = m.blocked cap := by
  cases hr : m.running with
  | false =>
    have hf : m.flusher = .returned := by
      by_contra hf
      exact hb (.inr ⟨hr, hf⟩)
    have hid : m.flusherStep cap = m := by simp only [Machine.flusherStep, hf]
    rw [hid]
    exact ⟨rfl, rfl⟩
  | true =>
    have hq : m.queue.numElements = 0 := by
      by_contra hq
      exact hb (.inl ⟨hr, hq⟩)
    have hj : m.app ≠ .joining := by
      intro hj
      have := h.running.mpr (by rw [hj]; trivial)
      simp [hr] at this
    cases hf : m.flusher with
    | returned => simp [h.returned (by rw [hf]; rfl)] at hr
    | aborted => exact absurd hf h.not_aborted
    | checking | fetching | sleeping =>
      refine ⟨by simp [Machine.rank, Machine.lag, Machine.flusherStep, hf, hr, hq], ?_⟩
      cases ha : m.app <;> simp_all [Machine.blocked, Machine.flusherStep]
    | addressing | writing => exact absurd hq (h.held (.inl (by rw [hf]; rfl)))
    | asserting | loading | advancing | counting =>
      exact absurd hq (h.held (.inr (by rw [hf]; rfl)))

theorem Machine.Sound.busy (h : m.Sound cap) (hb : m.blocked cap = true) : m.Busy := by
  have hpos := cap.pos
  have hrun : m.running = false ↔ m.app.place.Stopped := h.running
  cases ha : m.app with
  | pushing todo =>
    cases todo with
    | nil => simp [Machine.blocked, ha] at hb
    | cons e todo =>
      simp [Machine.blocked, ha] at hb
      simp [ha, AppCode.place, App.Stopped] at hrun
      exact .inl ⟨hrun, by omega⟩
  | waiting e todo =>
    simp [Machine.blocked, ha] at hb
    simp [ha, AppCode.place, App.Stopped] at hrun
    exact .inl ⟨hrun, by omega⟩
  | draining =>
    simp [Machine.blocked, ha] at hb
    simp [ha, AppCode.place, App.Stopped] at hrun
    exact .inl ⟨hrun, hb⟩
  | joining =>
    simp [Machine.blocked, ha] at hb
    exact .inr ⟨hrun.mpr (by rw [ha]; trivial), hb⟩
  | addressing | storing | loading | advancing | counting | stopping | joined =>
    simp [Machine.blocked, ha] at hb

end Background

section Fair

theorem machine_ranking (cap : Capacity) (store : ℕ → LogElement) (calls : List Call)
    (schedule : ℕ → Thread) :
    Ranking (Machine.after cap store calls schedule) 0 (fun t k ↦ schedule k = t)
      (fun m ↦ m.app = .joined) Machine.rank (Machine.helpful cap) := by
  refine .of_turns (fun t m h ↦ h.step t) ?_ ?_
    (machine_initial_inv cap store (calls.flatMap Call.elements)) schedule
  · intro m h hj
    cases hb : m.blocked cap with
    | true =>
      simp only [Machine.helpful, hb, if_true, Machine.step]
      exact flusherStep_lowers h.sound (h.sound.busy hb)
    | false =>
      simp only [Machine.helpful, hb, Bool.false_eq_true, if_false, Machine.step]
      exact appStep_lowers h.sound hb hj
  · intro t m h hj
    cases t with
    | app =>
      cases hb : m.blocked cap with
      | true =>
        obtain ⟨hrank, hb'⟩ := appStep_blocked hb
        exact .inr ⟨hrank, by simp only [Machine.helpful, Machine.step, hb, hb']⟩
      | false => exact .inl (appStep_lowers h.sound hb hj)
    | flusher =>
      by_cases hbusy : m.Busy
      · exact .inl (flusherStep_lowers h.sound hbusy)
      · obtain ⟨hrank, hb'⟩ := flusherStep_idle h.sound hbusy
        exact .inr ⟨hrank, by simp only [Machine.helpful, Machine.step, hb']⟩

/-- `~Logger()` returns under every fair schedule of the two threads, however
many calls came before it and however small the queue is, and the file then
holds the values of all of them. -/
theorem fair_logger_terminates (cap : Capacity) (store : ℕ → LogElement) (calls : List Call)
    {schedule : ℕ → Thread} (hfair : Fair schedule) :
    ∃ k, (Machine.after cap store calls schedule k).app = .joined ∧
      (Machine.after cap store calls schedule k).flusher = .returned ∧
      (Machine.after cap store calls schedule k).file =
        (calls.flatMap Call.elements).map fun e ↦ some e.value := by
  obtain ⟨k, -, hk⟩ := (machine_ranking cap store calls schedule).reaches hfair
  exact ⟨k, hk, (after_inv cap store calls schedule k).joined_complete hk⟩

def alternating (k : ℕ) : Thread := if k % 2 = 0 then .app else .flusher

theorem alternating_fair : Fair alternating := by
  intro t k
  cases t with
  | app => exact ⟨2 * k, by omega, if_pos (by omega)⟩
  | flusher => exact ⟨2 * k + 1, by omega, if_neg (by omega)⟩

theorem fair_logger_terminates_alternating :
    ∃ k, (Machine.after ⟨1, by decide, by decide⟩ (fun _ ↦ pushChar 0) [⟨[0x41, 0x42], []⟩]
      alternating k).file = [some (.c 0x41), some (.c 0x42)] := by
  obtain ⟨k, -, -, hfile⟩ := fair_logger_terminates ⟨1, by decide, by decide⟩
    (fun _ ↦ pushChar 0) [⟨[0x41, 0x42], []⟩] alternating_fair
  exact ⟨k, hfile⟩

end Fair

end LowLatency.Logger
