import Mathlib.Data.List.Basic
import Mathlib.Data.List.ReduceOption

namespace LowLatency.Library.Runs

variable {σ τ ℓ κ : Type*}

/-- A finite run from a fixed start, with the labels of its steps in order. -/
inductive Run (step : σ → ℓ → σ → Prop) (s : σ) : List ℓ → σ → Prop
  | nil : Run step s [] s
  | snoc {ls : List ℓ} {l : ℓ} {t u : σ} :
      Run step s ls t → step t l u → Run step s (ls ++ [l]) u

namespace Run

variable {step : σ → ℓ → σ → Prop} {s t u : σ} {ls ms : List ℓ} {l : ℓ}

theorem one (h : step s l t) : Run step s [l] t := Run.snoc .nil h

theorem trans (h : Run step s ls t) (h' : Run step t ms u) : Run step s (ls ++ ms) u := by
  induction h' with
  | nil => simpa only [List.append_nil] using h
  | snoc _ hs ih => simpa only [List.append_assoc] using ih.snoc hs

theorem cons (hs : step s l t) (h : Run step t ls u) : Run step s (l :: ls) u :=
  (one hs).trans h

theorem invariant (I : List ℓ → σ → Prop) (h₀ : I [] s)
    (hs : ∀ ls t l u, I ls t → step t l u → I (ls ++ [l]) u)
    (h : Run step s ls t) : I ls t := by
  induction h with
  | nil => exact h₀
  | snoc _ hl ih => exact hs _ _ _ _ ih hl

theorem invariant_state (I : σ → Prop) (h₀ : I s) (hs : ∀ t l u, I t → step t l u → I u)
    (h : Run step s ls t) : I t :=
  h.invariant (fun _ ↦ I) h₀ (fun _ t l u ↦ hs t l u)

/-- Refinement through an abstraction function: under an invariant, each step
of the code is a step of the abstract system with the same label. -/
theorem refine {astep : τ → ℓ → τ → Prop} (I : σ → Prop) (abs : σ → τ) (h₀ : I s)
    (hs : ∀ t l u, I t → step t l u → I u ∧ astep (abs t) l (abs u))
    (h : Run step s ls t) : I t ∧ Run astep (abs s) ls (abs t) := by
  induction h with
  | nil => exact ⟨h₀, .nil⟩
  | snoc _ hl ih => exact ⟨(hs _ _ _ ih.1 hl).1, ih.2.snoc (hs _ _ _ ih.1 hl).2⟩

end Run

/-- One step of the abstract system answers a visible label; an internal step
of the concrete system is matched by doing nothing. -/
def Answers (astep : τ → κ → τ → Prop) (t : τ) : Option κ → τ → Prop
  | none, t' => t' = t
  | some k, t' => astep t k t'

/-- Forward simulation: the visible labels of a concrete run are the labels of
an abstract run, and the two ends are related. -/
theorem simulate {step : σ → Option κ → σ → Prop} {astep : τ → κ → τ → Prop}
    (R : σ → τ → Prop)
    (hs : ∀ s t l s', R s t → step s l s' → ∃ t', Answers astep t l t' ∧ R s' t')
    {s s' : σ} {t : τ} {ls : List (Option κ)} (h : Run step s ls s') (hR : R s t) :
    ∃ t', Run astep t ls.reduceOption t' ∧ R s' t' := by
  induction h with
  | nil => exact ⟨t, .nil, hR⟩
  | @snoc ls l u v _ hl ih =>
    obtain ⟨t₁, hrun, hR₁⟩ := ih
    obtain ⟨t₂, hans, hR₂⟩ := hs _ _ _ _ hR₁ hl
    refine ⟨t₂, ?_, hR₂⟩
    rw [List.reduceOption_append]
    cases l with
    | none =>
      rw [show t₂ = t₁ from hans]
      simpa only [List.reduceOption_singleton, Option.toList, List.append_nil] using hrun
    | some k => exact hrun.snoc hans

section Machines

variable {ι ω : Type*}

def feed (step : ι → σ → ω × σ) : List ι → σ → List ω × σ
  | [], s => ([], s)
  | i :: is, s => ((step i s).1 :: (feed step is (step i s).2).1, (feed step is (step i s).2).2)

def feedChecked (step : ι → σ → Option (ω × σ)) : List ι → σ → Option (List ω × σ)
  | [], s => some ([], s)
  | i :: is, s => do
    let (o, t) ← step i s
    let (os, u) ← feedChecked step is t
    some (o :: os, u)

variable {step : ι → σ → ω × σ}

theorem feed_append (step : ι → σ → ω × σ) (is js : List ι) (s : σ) :
    feed step (is ++ js) s = ((feed step is s).1 ++ (feed step js (feed step is s).2).1,
      (feed step js (feed step is s).2).2) := by
  induction is generalizing s with
  | nil => rfl
  | cons i is ih =>
    rw [List.cons_append, feed, ih]
    rfl

theorem feed_invariant (I : σ → Prop) (hs : ∀ i s, I s → I (step i s).2) {s : σ} (h : I s)
    (is : List ι) : I (feed step is s).2 := by
  induction is generalizing s with
  | nil => exact h
  | cons i is ih => exact ih (hs i s h)

theorem feedChecked_eq {checked : ι → σ → Option (ω × σ)} (I : σ → Prop)
    (hs : ∀ i s, I s → I (step i s).2) (hc : ∀ i s, I s → checked i s = some (step i s))
    {s : σ} (h : I s) (is : List ι) : feedChecked checked is s = some (feed step is s) := by
  induction is generalizing s with
  | nil => rfl
  | cons i is ih =>
    simp only [feedChecked, hc i s h, Option.bind_eq_bind, Option.bind_some, ih (hs i s h), feed]

theorem feed_bisim {step' : ι → τ → ω × τ} (R : σ → τ → Prop)
    (hs : ∀ i s t, R s t → (step i s).1 = (step' i t).1 ∧ R (step i s).2 (step' i t).2)
    {s : σ} {t : τ} (h : R s t) (is : List ι) : (feed step is s).1 = (feed step' is t).1 := by
  induction is generalizing s t with
  | nil => rfl
  | cons i is ih =>
    obtain ⟨hout, hnext⟩ := hs i s t h
    rw [feed, feed, hout, ih hnext]

end Machines

end LowLatency.Library.Runs
