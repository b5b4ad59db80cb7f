import LowLatency.Library.Runs

namespace LowLatency.Library.BoundedFifo

open Runs

variable {α : Type*}

inductive Op (α : Type*)
  | enqueue (v : α)
  | dequeue (v : α)
  | full
  | empty
  | size (k : ℕ)

inductive FifoStep (n : ℕ) : List α → Op α → List α → Prop
  | enqueue {q : List α} (v : α) (hq : q.length < n) : FifoStep n q (.enqueue v) (q ++ [v])
  | dequeue (v : α) (q : List α) : FifoStep n (v :: q) (.dequeue v) q
  | full {q : List α} (hq : q.length = n) : FifoStep n q .full q
  | empty : FifoStep n [] .empty []
  | size (q : List α) : FifoStep n q (.size q.length) q

theorem enqueue_iff {n : ℕ} {q q' : List α} {v : α} :
    FifoStep n q (.enqueue v) q' ↔ q.length < n ∧ q' = q ++ [v] := by
  constructor
  · rintro ⟨⟩
    exact ⟨‹_›, rfl⟩
  · rintro ⟨hlt, rfl⟩
    exact .enqueue v hlt

theorem dequeue_iff {n : ℕ} {q q' : List α} {v : α} :
    FifoStep n q (.dequeue v) q' ↔ q = v :: q' := by
  constructor
  · rintro ⟨⟩
    rfl
  · rintro rfl
    exact .dequeue v q'

def enqueued : List (Op α) → List α := List.filterMap fun
  | .enqueue v => some v
  | _ => none

def dequeued : List (Op α) → List α := List.filterMap fun
  | .dequeue v => some v
  | _ => none

/-- Nothing is lost, duplicated or reordered: what went in is what came out
followed by what is still queued. -/
theorem run_order {n : ℕ} {q : List α} {os : List (Op α)} (h : Run (FifoStep n) [] os q) :
    enqueued os = dequeued os ++ q := by
  apply h.invariant (fun os q ↦ enqueued os = dequeued os ++ q) rfl
  intro os q o q' ih hs
  simp only [enqueued, dequeued, List.filterMap_append] at ih ⊢
  cases hs with
  | enqueue v hlt => simp [ih]
  | dequeue v q => simp [ih]
  | full | empty | size => simpa using ih

end LowLatency.Library.BoundedFifo
