import Mathlib.Data.List.Range
import Mathlib.Data.Nat.ModEq
import Mathlib.Logic.Function.Basic

namespace LowLatency.Library.RingWindow

variable {α : Type*}

theorem slot_ne {n h i j : ℕ} (hi : i < n) (hj : j < n) (hij : i ≠ j) :
    (h + i) % n ≠ (h + j) % n := by
  intro he
  have hmod : i ≡ j [MOD n] := Nat.ModEq.add_left_cancel' h he
  exact hij (Nat.ModEq.eq_of_lt_of_lt hmod hi hj)

theorem exists_offset {n s i : ℕ} (hs : s < n) (hi : i < n) :
    ∃ d, 1 ≤ d ∧ d ≤ n ∧ (s + d) % n = i ∧ (d < n ↔ i ≠ s) := by
  rcases Nat.lt_or_ge s i with hlt | hge
  · refine ⟨i - s, by omega, by omega, ?_, by omega⟩
    rw [show s + (i - s) = i by omega, Nat.mod_eq_of_lt hi]
  · refine ⟨i + n - s, by omega, by omega, ?_, by omega⟩
    rw [show s + (i + n - s) = i + n by omega, Nat.add_mod_right, Nat.mod_eq_of_lt hi]

/-- The `c` values that start at slot `h` of a ring of `n` slots. -/
def window (f : ℕ → α) (n h c : ℕ) : List α :=
  (List.range c).map fun i ↦ f ((h + i) % n)

@[simp] theorem window_length (f : ℕ → α) (n h c : ℕ) : (window f n h c).length = c := by
  simp [window]

@[simp] theorem window_zero (f : ℕ → α) (n h : ℕ) : window f n h 0 = [] := rfl

theorem window_snoc (f : ℕ → α) (n h c : ℕ) :
    window f n h (c + 1) = window f n h c ++ [f ((h + c) % n)] := by
  simp [window, List.range_succ]

theorem window_cons (f : ℕ → α) (n h c : ℕ) :
    window f n h (c + 1) = f (h % n) :: window f n ((h + 1) % n) c := by
  simp only [window, List.range_succ_eq_map, List.map_cons, List.map_map, Nat.add_zero]
  congr 1
  apply List.map_congr_left
  intro i _
  simp only [Function.comp, Nat.mod_add_mod]
  congr 2
  omega

theorem window_update {n h c j : ℕ} (f : ℕ → α) (v : α) (hj : j < n) (hc : c ≤ j) :
    window (Function.update f ((h + j) % n) v) n h c = window f n h c := by
  apply List.map_congr_left
  intro i hi
  have hic : i < c := List.mem_range.mp hi
  exact Function.update_of_ne (slot_ne (by omega) hj (by omega)) _ _

end LowLatency.Library.RingWindow
