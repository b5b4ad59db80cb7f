import Mathlib.Logic.Relation
import Mathlib.Order.WellFounded

namespace LowLatency.Library.Fairness

variable {σ τ ι κ β : Type*}

/-- The state after the first turns of a schedule, which says whose turn is next. -/
def states (step : ι → σ → σ) (schedule : ℕ → ι) (s : σ) : ℕ → σ
  | 0 => s
  | k + 1 => step (schedule k) (states step schedule s k)

def FairTo (serves : κ → ℕ → Prop) : Prop := ∀ c k, ∃ j, k ≤ j ∧ serves c j

def Fair (schedule : ℕ → ι) : Prop := FairTo fun c k ↦ schedule k = c

variable {step : ι → σ → σ} {s : σ}

theorem states_invariant {I : σ → Prop} (hs : ∀ i s, I s → I (step i s)) (h : I s)
    (schedule : ℕ → ι) (k : ℕ) : I (states step schedule s k) := by
  induction k with
  | zero => exact h
  | succ k ih => exact hs _ _ ih

theorem states_simulate {astep : τ → τ → Prop} (R : σ → τ → Prop)
    (hs : ∀ i s t, R s t → ∃ t', Relation.ReflGen astep t t' ∧ R (step i s) t') {t : τ}
    (h : R s t) (schedule : ℕ → ι) (k : ℕ) :
    ∃ t', Relation.ReflTransGen astep t t' ∧ R (states step schedule s k) t' := by
  induction k with
  | zero => exact ⟨t, .refl, h⟩
  | succ k ih =>
    obtain ⟨t', hrun, hR⟩ := ih
    obtain ⟨t'', hstep, hR'⟩ := hs (schedule k) _ _ hR
    exact ⟨t'', hrun.trans hstep.to_reflTransGen, hR'⟩

/-- A rank that is lowered whenever one participant is served, and never raised.
While it stays the same, so does that participant. -/
structure Ranking [LT β] (run : ℕ → σ) (start : ℕ) (serves : κ → ℕ → Prop) (done : σ → Prop)
    (rank : σ → β) (helpful : σ → κ) : Prop where
  lowers : ∀ k, start ≤ k → ¬ done (run k) → serves (helpful (run k)) k →
    rank (run (k + 1)) < rank (run k)
  waits : ∀ k, start ≤ k → ¬ done (run k) → rank (run (k + 1)) < rank (run k) ∨
    rank (run (k + 1)) = rank (run k) ∧ helpful (run (k + 1)) = helpful (run k)

theorem Ranking.of_turns [LT β] {I done : σ → Prop} {rank : σ → β} {helpful : σ → ι}
    (hkeeps : ∀ i s, I s → I (step i s))
    (hlowers : ∀ s, I s → ¬ done s → rank (step (helpful s) s) < rank s)
    (hwaits : ∀ i s, I s → ¬ done s → rank (step i s) < rank s ∨
      rank (step i s) = rank s ∧ helpful (step i s) = helpful s)
    (h : I s) (schedule : ℕ → ι) :
    Ranking (states step schedule s) 0 (fun c k ↦ schedule k = c) done rank helpful where
  lowers k _ hdone hturn := by
    rw [states, hturn]
    exact hlowers _ (states_invariant hkeeps h schedule k) hdone
  waits k _ hdone := hwaits _ _ (states_invariant hkeeps h schedule k) hdone

section Progress

variable [LT β] {run : ℕ → σ} {start : ℕ} {serves : κ → ℕ → Prop} {done : σ → Prop}
variable {rank : σ → β} {helpful : σ → κ}

theorem Ranking.until_served (h : Ranking run start serves done rank helpful) {k : ℕ}
    (hk : start ≤ k) (d : ℕ) (hd : serves (helpful (run k)) (k + d)) :
    ∃ j, k ≤ j ∧ (done (run j) ∨ rank (run j) < rank (run k)) := by
  induction d generalizing k with
  | zero =>
    by_cases hdone : done (run k)
    · exact ⟨k, le_rfl, .inl hdone⟩
    · exact ⟨k + 1, Nat.le_succ k, .inr (h.lowers k hk hdone hd)⟩
  | succ d ih =>
    by_cases hdone : done (run k)
    · exact ⟨k, le_rfl, .inl hdone⟩
    · rcases h.waits k hk hdone with hlt | ⟨heq, hsame⟩
      · exact ⟨k + 1, Nat.le_succ k, .inr hlt⟩
      · have hd' : serves (helpful (run (k + 1))) (k + 1 + d) := by
          rw [Nat.add_right_comm, hsame]
          exact hd
        obtain ⟨j, hj, hres⟩ := ih (hk.trans (Nat.le_succ k)) hd'
        refine ⟨j, by omega, hres.imp_right fun hlt ↦ ?_⟩
        rwa [heq] at hlt

/-- If everyone is served again and again, the rank drops until the goal is
reached. -/
theorem Ranking.reaches [WellFoundedLT β] (h : Ranking run start serves done rank helpful)
    (hfair : FairTo serves) : ∃ k, start ≤ k ∧ done (run k) := by
  suffices hall : ∀ b k, start ≤ k → rank (run k) = b → ∃ j, start ≤ j ∧ done (run j) from
    hall _ start le_rfl rfl
  intro b
  induction b using WellFoundedLT.induction with
  | ind b ih =>
    intro k hk hb
    obtain ⟨j, hj, hserves⟩ := hfair (helpful (run k)) k
    obtain ⟨d, rfl⟩ := Nat.exists_eq_add_of_le hj
    obtain ⟨m, hm, hdone | hlt⟩ := h.until_served hk d hserves
    · exact ⟨m, hk.trans hm, hdone⟩
    · exact ih _ (hb ▸ hlt) m (hk.trans hm) rfl

end Progress

end LowLatency.Library.Fairness
