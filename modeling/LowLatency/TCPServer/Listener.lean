import LowLatency.Library.Runs
import LowLatency.TCPServer.Ownership

namespace LowLatency.TCPServer

open Library.Runs SocketUtils TCPSocket

/-- The kernel's side of the listener: the pending connections, and whether
epoll has a readiness edge to report. -/
structure Kernel where
  backlog : List ℕ
  edge : Bool

namespace Kernel

def arrive (c : ℕ) (k : Kernel) : Kernel := ⟨k.backlog ++ [c], true⟩

/-- What the kernel does during an accept loop: connections may arrive between
the calls, each success takes the head, and one failure ends the loop. -/
inductive Accepting : Kernel → List ℕ → List Accepted → Errno → Kernel → Prop
  | arrive {k k' : Kernel} {c : ℕ} {arrived : List ℕ} {accepts : List Accepted} {e : Errno} :
      Accepting (k.arrive c) arrived accepts e k' → Accepting k (c :: arrived) accepts e k'
  | head {k k' : Kernel} {c : ℕ} {rest arrived : List ℕ} {a : Accepted}
      {accepts : List Accepted} {e : Errno} : k.backlog = c :: rest →
      Accepting { k with backlog := rest } arrived accepts e k' →
      Accepting k arrived (a :: accepts) e k'
  | empty {k : Kernel} {e : Errno} : k.backlog = [] → e = .eagain ∨ e = .ewouldblock →
      Accepting k [] [] e k
  | aborted {k : Kernel} : Accepting k [] [] .econnaborted { k with backlog := k.backlog.tail }
  | error {k : Kernel} {e : Errno} : e ≠ .eagain → e ≠ .ewouldblock → e ≠ .econnaborted →
      Accepting k [] [] e k

def abortedBy (e : Errno) : ℕ := if e = .econnaborted then 1 else 0

theorem Accepting.spec {k k' : Kernel} {arrived : List ℕ} {accepts : List Accepted} {e : Errno}
    (h : Accepting k arrived accepts e k') :
    (k'.edge = true ↔ k.edge = true ∨ arrived ≠ []) ∧
    accepts.length ≤ k.backlog.length + arrived.length ∧
    k'.backlog.length = k.backlog.length + arrived.length - accepts.length - abortedBy e ∧
    (e = .eagain ∨ e = .ewouldblock → k'.backlog = []) := by
  induction h with
  | arrive _ ih =>
    obtain ⟨h₁, h₂, h₃, h₄⟩ := ih
    simp only [Kernel.arrive, List.length_append, List.length_singleton, true_or, iff_true]
      at h₁ h₂ h₃
    refine ⟨by simp [h₁], ?_, ?_, h₄⟩
    · rw [List.length_cons]
      omega
    · rw [List.length_cons]
      omega
  | head hk _ ih =>
    obtain ⟨h₁, h₂, h₃, h₄⟩ := ih
    refine ⟨h₁, ?_, ?_, h₄⟩
    · rw [hk, List.length_cons, List.length_cons]
      simp only at h₂
      omega
    · rw [h₃, hk, List.length_cons, List.length_cons]
      simp only
      omega
  | empty hk he =>
    refine ⟨by simp, by simp, ?_, fun _ ↦ hk⟩
    rcases he with rfl | rfl <;> simp [abortedBy]
  | aborted => exact ⟨by simp, by simp, by simp [abortedBy], by simp⟩
  | error h₁ h₂ h₃ => exact ⟨by simp, by simp, by simp [abortedBy, h₃], by simp [h₁, h₂]⟩

end Kernel

def listenerAcceptable (events : List EpollEvent) : Bool :=
  events.any fun event ↦ event.ptr = .listener && event.readable && !(event.err || event.hup)

theorem dispatch_fst (b : Bool) (s : Server) (event : EpollEvent) :
    (Server.dispatch (b, s) event).1 =
      (b || (event.ptr = .listener && event.readable && !(event.err || event.hup))) := by
  obtain ⟨p, err, hup, readable, writable⟩ := event
  unfold Server.dispatch
  by_cases hnull : p = .null
  · subst hnull
    simp
  · by_cases hl : p = .listener
    · subst hl
      cases err <;> cases hup <;> cases readable <;> cases writable <;> simp
    · cases err <;> cases hup <;> cases readable <;> cases writable <;> simp [hnull, hl]

theorem foldl_dispatch_fst (events : List EpollEvent) (b : Bool) (s : Server) :
    (events.foldl Server.dispatch (b, s)).1 = (b || listenerAcceptable events) := by
  unfold listenerAcceptable
  induction events generalizing b s with
  | nil => simp
  | cons event events ih =>
    rw [List.foldl_cons, List.any_cons, ← Bool.or_assoc, ← dispatch_fst b s event]
    exact ih _ _

theorem dispatched_fst (env : PollEnv) (s : Server) :
    (s.dispatched env).1 = listenerAcceptable (s.polledEvents env) := by
  rw [Server.dispatched, foldl_dispatch_fst, Bool.false_or]

inductive Action
  | arrive (c : ℕ)
  | poll (env : PollEnv) (arrived : List ℕ)

end LowLatency.TCPServer
