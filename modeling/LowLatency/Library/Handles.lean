import Mathlib.Data.List.Nodup
import Mathlib.Data.Set.Insert
import Mathlib.Logic.Function.Basic

namespace LowLatency.Library.Handles

open Function

variable {ι : Type*}

/-- The open handles are exactly the non-negative ones that the holders keep,
and no two holders keep the same one. -/
structure Kept (holders : Set ι) (handle : ι → ℤ) (opened : List ℤ) : Prop where
  open_iff : ∀ x, x ∈ opened ↔ 0 ≤ x ∧ ∃ i ∈ holders, handle i = x
  unique : ∀ i ∈ holders, ∀ j ∈ holders, 0 ≤ handle i → handle i = handle j → i = j

namespace Kept

variable {holders : Set ι} {handle : ι → ℤ} {opened : List ℤ} {i : ι} {x : ℤ}

theorem nil (h : ∀ i ∈ holders, handle i < 0) : Kept holders handle [] := by
  refine ⟨fun x ↦ ⟨by nofun, ?_⟩, fun i hi _ _ h0 _ ↦ absurd h0 (not_le.2 (h i hi))⟩
  rintro ⟨h0, i, hi, rfl⟩
  exact absurd h0 (not_le.2 (h i hi))

theorem mem (h : Kept holders handle opened) (hi : i ∈ holders) (hx : 0 ≤ handle i) :
    handle i ∈ opened :=
  (h.open_iff _).2 ⟨hx, i, hi, rfl⟩

theorem congr {handle' : ι → ℤ} (h : Kept holders handle opened)
    (heq : ∀ i ∈ holders, handle' i = handle i) : Kept holders handle' opened := by
  refine ⟨fun x ↦ (h.open_iff x).trans (and_congr_right fun _ ↦ ?_), fun i hi j hj hx hij ↦ ?_⟩
  · exact exists_congr fun i ↦ and_congr_right fun hi ↦ by rw [heq i hi]
  · rw [heq i hi] at hx hij
    rw [heq j hj] at hij
    exact h.unique i hi j hj hx hij

theorem enumerate (h : Kept holders handle opened) {l : List ι} (hl : l.Nodup)
    (hmem : ∀ i, i ∈ l ↔ i ∈ holders) :
    (∀ x, x ∈ opened ↔ x ∈ (l.map handle).filter (0 ≤ ·)) ∧
      ((l.map handle).filter (0 ≤ ·)).Nodup := by
  constructor
  · intro x
    simp only [h.open_iff, List.mem_filter, List.mem_map, decide_eq_true_eq, hmem, and_comm]
  · rw [List.filter_map]
    refine List.Nodup.map_on ?_ (hl.filter _)
    intro i hi j hj heq
    obtain ⟨hi, h0⟩ := List.mem_filter.1 hi
    exact h.unique i ((hmem i).1 hi) j ((hmem j).1 (List.mem_filter.1 hj).1)
      (of_decide_eq_true h0) heq

theorem insert (h : Kept holders handle opened) (hx : handle i < 0) :
    Kept (insert i holders) handle opened := by
  refine ⟨fun x ↦ (h.open_iff x).trans (and_congr_right fun h0 ↦ ⟨?_, ?_⟩), ?_⟩
  · rintro ⟨j, hj, rfl⟩
    exact ⟨j, Set.mem_insert_of_mem i hj, rfl⟩
  · rintro ⟨j, rfl | hj, rfl⟩
    · omega
    · exact ⟨j, hj, rfl⟩
  · rintro j (rfl | hj) k (rfl | hk) h0 hjk
    · rfl
    · omega
    · omega
    · exact h.unique j hj k hk h0 hjk

theorem erase (h : Kept holders handle opened) (hx : handle i < 0) :
    Kept (holders \ {i}) handle opened := by
  refine ⟨fun x ↦ (h.open_iff x).trans (and_congr_right fun h0 ↦ ⟨?_, ?_⟩), ?_⟩
  · rintro ⟨j, hj, rfl⟩
    refine ⟨j, ⟨hj, ?_⟩, rfl⟩
    rintro rfl
    omega
  · rintro ⟨j, hj, rfl⟩
    exact ⟨j, hj.1, rfl⟩
  · intro j hj k hk h0 hjk
    exact h.unique j hj.1 k hk.1 h0 hjk

variable [DecidableEq ι]

theorem release (h : Kept holders handle opened) (hi : i ∈ holders) (hx : 0 ≤ handle i) :
    Kept holders (update handle i (-1)) (opened.filter (· ≠ handle i)) := by
  constructor
  · intro x
    simp only [List.mem_filter, decide_eq_true_eq, h.open_iff]
    constructor
    · rintro ⟨⟨h0, j, hj, rfl⟩, hne⟩
      exact ⟨h0, j, hj, update_of_ne (fun hji ↦ hne (by rw [hji])) _ _⟩
    · rintro ⟨h0, j, hj, rfl⟩
      rcases eq_or_ne j i with rfl | hne
      · rw [update_self] at h0
        omega
      · rw [update_of_ne hne] at h0 ⊢
        exact ⟨⟨h0, j, hj, rfl⟩, fun heq ↦ hne (h.unique j hj i hi h0 heq)⟩
  · intro j hj k hk h0 hjk
    rcases eq_or_ne j i with rfl | hj'
    · rw [update_self] at h0
      omega
    rcases eq_or_ne k i with rfl | hk'
    · rw [update_self] at hjk
      omega
    rw [update_of_ne hj'] at h0 hjk
    rw [update_of_ne hk'] at hjk
    exact h.unique j hj k hk h0 hjk

theorem reset (h : Kept holders handle opened) (hx : handle i < 0) (h0 : x < 0) :
    Kept holders (update handle i x) opened := by
  refine ⟨fun y ↦ (h.open_iff y).trans (and_congr_right fun hy ↦ ?_), fun j hj k hk hj0 hjk ↦ ?_⟩
  · refine exists_congr fun j ↦ and_congr_right fun _ ↦ ?_
    rcases eq_or_ne j i with rfl | hne
    · rw [update_self]
      omega
    · rw [update_of_ne hne]
  · rcases eq_or_ne j i with rfl | hj'
    · rw [update_self] at hj0
      omega
    rcases eq_or_ne k i with rfl | hk'
    · rw [update_self, update_of_ne hj'] at hjk
      rw [update_of_ne hj'] at hj0
      omega
    rw [update_of_ne hj'] at hj0 hjk
    rw [update_of_ne hk'] at hjk
    exact h.unique j hj k hk hj0 hjk

theorem acquire (h : Kept holders handle opened) (hi : i ∈ holders) (hx : handle i < 0)
    (h0 : 0 ≤ x) (hfresh : x ∉ opened) : Kept holders (update handle i x) (x :: opened) := by
  have hne : ∀ j ∈ holders, handle j ≠ x := fun j hj hjx ↦
    hfresh (hjx ▸ h.mem hj (by omega))
  constructor
  · intro y
    rw [List.mem_cons, h.open_iff]
    constructor
    · rintro (rfl | ⟨hy, j, hj, rfl⟩)
      · exact ⟨h0, i, hi, update_self ..⟩
      · refine ⟨hy, j, hj, update_of_ne ?_ _ _⟩
        rintro rfl
        omega
    · rintro ⟨hy, j, hj, rfl⟩
      rcases eq_or_ne j i with rfl | hji
      · exact .inl (update_self ..)
      · rw [update_of_ne hji] at hy ⊢
        exact .inr ⟨hy, j, hj, rfl⟩
  · intro j hj k hk hj0 hjk
    rcases eq_or_ne j i with hj' | hj' <;> rcases eq_or_ne k i with hk' | hk'
    · rw [hj', hk']
    · rw [hj', update_self, update_of_ne hk'] at hjk
      exact absurd hjk.symm (hne k hk)
    · rw [hk', update_self, update_of_ne hj'] at hjk
      exact absurd hjk (hne j hj)
    · rw [update_of_ne hj'] at hj0 hjk
      rw [update_of_ne hk'] at hjk
      exact h.unique j hj k hk hj0 hjk

end Kept

end LowLatency.Library.Handles
