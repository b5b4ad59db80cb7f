import LowLatency.Library.RingWindow
import LowLatency.MemPool.Pool

namespace LowLatency.MemPool

open Library.Words

variable {α : Type*}

def freeAt (store : List (ObjectBlock α)) (i : ℕ) : Bool := (store[i]?).any ObjectBlock.isFree

theorem freeAt_lt {store : List (ObjectBlock α)} {i : ℕ} (h : freeAt store i) :
    i < store.length := by
  by_contra hi
  simp [freeAt, List.getElem?_eq_none (Nat.not_lt.mp hi)] at h

theorem freeAt_of_getElem? {store : List (ObjectBlock α)} {i : ℕ} {b : ObjectBlock α}
    (h : store[i]? = some b) : freeAt store i = b.isFree := by
  simp [freeAt, h]

theorem freeAt_modify (store : List (ObjectBlock α)) (slot i : ℕ) :
    freeAt (store.modify slot fun block ↦ { block with object := none }) i = freeAt store i := by
  unfold freeAt
  rw [List.getElem?_modify]
  cases store[i]? with
  | none => rfl
  | some block =>
    rcases eq_or_ne slot i with rfl | hne
    · simp
    · simp [hne]

theorem advance_eq {n i : ℕ} (hn : n < sizeRange) (hi : i < n) : advance n i = (i + 1) % n := by
  rw [advance, sizeAdd_eq (by omega)]
  split
  next h => rw [h, Nat.mod_self]
  next h => exact (Nat.mod_eq_of_lt (by omega)).symm

section Loop

variable {store : List (ObjectBlock α)} {start : ℕ}

theorem searchLoop_succ (hn : store.length < sizeRange) {index : ℕ}
    (hi : index < store.length) (fuel : ℕ) :
    searchLoop store start (fuel + 1) index =
      if freeAt store ((index + 1) % store.length) then .found ((index + 1) % store.length)
      else if (index + 1) % store.length ≠ start then
        searchLoop store start fuel ((index + 1) % store.length)
      else .noFreeBlock ((index + 1) % store.length) := by
  have hlt : (index + 1) % store.length < store.length := Nat.mod_lt _ (by omega)
  simp only [searchLoop, advance_eq hn hi, List.getElem?_eq_getElem hlt, freeAt, Option.any_some]

/-- A search that has passed `k` slots in vain and has fuel for the rest of the
lap stops at the first free slot, or at `start` when the lap is complete. -/
theorem searchLoop_spec (hn : store.length < sizeRange) (hs : start < store.length)
    (fuel : ℕ) : ∀ k, k + fuel = store.length → 0 < fuel →
    (∀ d, 1 ≤ d → d ≤ k → freeAt store ((start + d) % store.length) = false) →
    (∃ d, 1 ≤ d ∧ d ≤ store.length ∧ freeAt store ((start + d) % store.length) ∧
        (∀ e, 1 ≤ e → e < d → freeAt store ((start + e) % store.length) = false) ∧
        searchLoop store start fuel ((start + k) % store.length) =
          .found ((start + d) % store.length)) ∨
      ((∀ d, 1 ≤ d → d ≤ store.length → freeAt store ((start + d) % store.length) = false) ∧
        searchLoop store start fuel ((start + k) % store.length) = .noFreeBlock start) := by
  induction fuel with
  | zero => intro k _ h0; omega
  | succ fuel ih =>
    intro k hk _ hpast
    rw [searchLoop_succ hn (Nat.mod_lt _ (by omega)), Nat.mod_add_mod]
    cases hfree : freeAt store ((start + k + 1) % store.length) with
    | true =>
      refine .inl ⟨k + 1, by omega, by omega, hfree, fun e h1 he ↦ hpast e h1 (by omega), ?_⟩
      rw [if_pos rfl, Nat.add_assoc]
    | false =>
      have hpast' : ∀ d, 1 ≤ d → d ≤ k + 1 →
          freeAt store ((start + d) % store.length) = false := by
        intro d h1 hd
        rcases Nat.lt_or_ge k d with hlt | hle
        · rw [show d = k + 1 by omega, ← Nat.add_assoc, hfree]
        · exact hpast d h1 hle
      rw [if_neg (by simp)]
      by_cases hlap : fuel = 0
      · -- The lap is complete, so the loop is back at its start.
        have hback : (start + k + 1) % store.length = start := by
          rw [show start + k + 1 = start + store.length by omega, Nat.add_mod_right,
            Nat.mod_eq_of_lt hs]
        refine .inr ⟨fun d h1 hd ↦ hpast' d h1 (by omega), ?_⟩
        rw [hback, if_neg (by simp)]
      · have hne : (start + k + 1) % store.length ≠ start := by
          intro he
          have hslot := Library.RingWindow.slot_ne (h := start) (n := store.length) (i := k + 1)
            (j := 0) (by omega) (by omega) (by omega)
          exact hslot (by rw [← Nat.add_assoc, he, Nat.add_zero, Nat.mod_eq_of_lt hs])
        rw [if_pos hne, Nat.add_assoc]
        exact ih (k + 1) (by omega) (by omega) hpast'

theorem searchLoop_add (fuel extra index : ℕ)
    (h : ∀ j, searchLoop store start fuel index ≠ .running j) :
    searchLoop store start (fuel + extra) index = searchLoop store start fuel index := by
  induction fuel generalizing index with
  | zero => exact absurd rfl (h index)
  | succ fuel ih =>
    rw [Nat.succ_add, searchLoop, searchLoop]
    rw [searchLoop] at h
    cases hget : store[advance store.length index]? with
    | none => rfl
    | some block =>
      simp only [hget] at h ⊢
      split
      next => rfl
      next hfree =>
        rw [if_neg hfree] at h
        split
        next hgo =>
          rw [if_pos hgo] at h
          exact ih _ h
        next => rfl

end Loop

theorem updateNextFreeIndex_spec {p : Pool α} (hn : p.store.length < sizeRange)
    (hs : p.nextFreeIndex < p.store.length) :
    (∃ d, 1 ≤ d ∧ d ≤ p.store.length ∧
        freeAt p.store ((p.nextFreeIndex + d) % p.store.length) ∧
        (∀ e, 1 ≤ e → e < d →
          freeAt p.store ((p.nextFreeIndex + e) % p.store.length) = false) ∧
        updateNextFreeIndex p = .found ((p.nextFreeIndex + d) % p.store.length)) ∨
      (∀ i, freeAt p.store i = false) ∧ updateNextFreeIndex p = .noFreeBlock p.nextFreeIndex := by
  have hspec := searchLoop_spec hn hs p.store.length 0 (by omega) (by omega) (by omega)
  rw [Nat.add_zero, Nat.mod_eq_of_lt hs] at hspec
  refine hspec.imp_right ?_
  rintro ⟨hnone, hloop⟩
  refine ⟨?_, hloop⟩
  intro i
  cases hi : freeAt p.store i with
  | false => rfl
  | true =>
    obtain ⟨d, h1, hd, rfl, -⟩ := Library.RingWindow.exists_offset hs (freeAt_lt hi)
    exact absurd hi (by simp [hnone d h1 hd])

theorem updateNextFreeIndex_found {p : Pool α} (hn : p.store.length < sizeRange)
    (hs : p.nextFreeIndex < p.store.length) {i : ℕ} (hi : freeAt p.store i) :
    ∃ j, updateNextFreeIndex p = .found j ∧ freeAt p.store j := by
  rcases updateNextFreeIndex_spec hn hs with ⟨d, -, -, hfree, -, hfound⟩ | ⟨hnone, -⟩
  · exact ⟨_, hfound, hfree⟩
  · exact absurd hi (by simp [hnone i])

/-- `updateNextFreeIndex()` is an exact circular search: whatever the flags and
the cursor, it ends within one lap, at the first free slot behind the cursor. The
cursor comes last, and the assert is reached only if no slot is free. -/
theorem updateNextFreeIndex_exact {p : Pool α} (hn : p.store.length < sizeRange)
    (hs : p.nextFreeIndex < p.store.length) :
    (∀ fuel, p.store.length ≤ fuel →
      searchLoop p.store p.nextFreeIndex fuel p.nextFreeIndex = updateNextFreeIndex p) ∧
    ((∃ i, freeAt p.store i) → ∃ d, 1 ≤ d ∧ d ≤ p.store.length ∧
      freeAt p.store ((p.nextFreeIndex + d) % p.store.length) ∧
      (∀ e, 1 ≤ e → e < d →
        freeAt p.store ((p.nextFreeIndex + e) % p.store.length) = false) ∧
      (d = p.store.length → ∀ i, freeAt p.store i → i = p.nextFreeIndex) ∧
      updateNextFreeIndex p = .found ((p.nextFreeIndex + d) % p.store.length)) ∧
    ((∃ index, updateNextFreeIndex p = .noFreeBlock index) ↔ ∀ i, freeAt p.store i = false) ∧
    ∀ index, updateNextFreeIndex p = .noFreeBlock index → index = p.nextFreeIndex := by
  have hfuel (hends : ∀ j, updateNextFreeIndex p ≠ .running j) (fuel : ℕ)
      (hle : p.store.length ≤ fuel) :
      searchLoop p.store p.nextFreeIndex fuel p.nextFreeIndex = updateNextFreeIndex p := by
    obtain ⟨extra, rfl⟩ := Nat.exists_eq_add_of_le hle
    exact searchLoop_add _ extra _ hends
  rcases updateNextFreeIndex_spec hn hs with ⟨d, h1, hd, hfree, hleast, hfound⟩ | ⟨hnone, hlap⟩
  · refine ⟨hfuel (by simp [hfound]), fun _ ↦ ⟨d, h1, hd, hfree, hleast, ?_, hfound⟩, ?_, ?_⟩
    · intro hlast i hi
      obtain ⟨e, he1, he, rfl, hsame⟩ := Library.RingWindow.exists_offset hs (freeAt_lt hi)
      by_contra hne
      have hbusy := hleast e he1 (hlast ▸ hsame.mpr hne)
      rw [hbusy] at hi
      cases hi
    · refine iff_of_false (by simp [hfound]) ?_
      intro hnone
      rw [hnone] at hfree
      cases hfree
    · intro index hindex
      rw [hfound] at hindex
      cases hindex
  · refine ⟨hfuel (by simp [hlap]), ?_, iff_of_true ⟨_, hlap⟩ hnone, ?_⟩
    · rintro ⟨i, hi⟩
      rw [hnone i] at hi
      cases hi
    · intro index hindex
      rw [hlap] at hindex
      exact (Search.noFreeBlock.inj hindex).symm

theorem updateNextFreeIndex_exact_lap :
    ∃ d, 1 ≤ d ∧ d ≤ 3 ∧ updateNextFreeIndex
      (⟨[⟨some 1, false⟩, ⟨none, true⟩, ⟨some 2, false⟩], 1, 1, []⟩ : Pool ℕ) =
        .found ((1 + d) % 3) := by
  obtain ⟨-, hfound, -⟩ := updateNextFreeIndex_exact (p := (⟨[⟨some 1, false⟩, ⟨none, true⟩,
    ⟨some 2, false⟩], 1, 1, []⟩ : Pool ℕ)) (by decide) (by decide)
  obtain ⟨d, h1, hd, -, -, -, hd'⟩ := hfound ⟨1, rfl⟩
  exact ⟨d, h1, hd, hd'⟩

end LowLatency.MemPool
