import LowLatency.MemPool.Refinement

namespace LowLatency.MemPool

open Library.Runs Library.Words Function

variable {α : Type*} {cap : Capacity}

/-- The completed constructions and the destructions in one slot, in order. -/
def completed (i : ℕ) (lifetimes : List Lifetime) : List Lifetime :=
  lifetimes.filter fun e ↦ e = .constructed i ∨ e = .destroyed i

def lives (i k : ℕ) : List Lifetime :=
  (List.replicate k [.constructed i, .destroyed i]).flatten

theorem lives_succ (i k : ℕ) : lives i (k + 1) = lives i k ++ [.constructed i, .destroyed i] := by
  simp [lives, List.replicate_succ']

theorem completed_append (i : ℕ) (l l' : List Lifetime) :
    completed i (l ++ l') = completed i l ++ completed i l' := List.filter_append ..

/-- Constructions and destructions alternate in every slot, and the last one is
a construction exactly where an object lives. -/
def Alternating (p : Pool α) : Prop :=
  ∀ i, ∃ k, completed i p.lifetimes =
    lives i k ++ if (p.live i).isSome then [.constructed i] else []

theorem new_alternating (cap : Capacity) : Alternating (Pool.new cap : Pool α) := by
  intro i
  refine ⟨0, ?_⟩
  rw [new_live]
  rfl

namespace Alternating

variable {p p' : Pool α} {slot : ℕ}

theorem construct (h : Alternating p) (hfree : p.live slot = none) {v : α}
    (hlives : p'.lifetimes = p.lifetimes ++ [.started slot, .constructed slot])
    (hlive : p'.live = update p.live slot (some v)) : Alternating p' := by
  intro i
  obtain ⟨k, hk⟩ := h i
  rw [hlives, hlive, completed_append, hk]
  rcases eq_or_ne i slot with rfl | hne
  · refine ⟨k, ?_⟩
    rw [hfree, update_self]
    simp [completed]
  · refine ⟨k, ?_⟩
    rw [update_of_ne hne]
    simp [completed, hne.symm]

theorem abandon (h : Alternating p)
    (hlives : p'.lifetimes = p.lifetimes ++ [.started slot, .abandoned slot])
    (hlive : p'.live = p.live) : Alternating p' := by
  intro i
  obtain ⟨k, hk⟩ := h i
  refine ⟨k, ?_⟩
  rw [hlives, hlive, completed_append, hk]
  simp [completed]

theorem destroy (h : Alternating p) (hsome : (p.live slot).isSome)
    (hlives : p'.lifetimes = p.lifetimes ++ [.destroyed slot])
    (hlive : p'.live = update p.live slot none) : Alternating p' := by
  intro i
  obtain ⟨k, hk⟩ := h i
  rw [hlives, hlive, completed_append, hk]
  rcases eq_or_ne i slot with rfl | hne
  · refine ⟨k + 1, ?_⟩
    rw [if_pos hsome, update_self, lives_succ]
    simp [completed]
  · refine ⟨k, ?_⟩
    rw [update_of_ne hne]
    simp [completed, hne.symm]

theorem call (h : Alternating p) (hc : Consistent cap p) (lay : Layout) {l : Op α × Result}
    (hs : CallStep lay p l p') : Alternating p' := by
  have heffect := call_effect lay hc l.1
  rw [show p.call lay l.1 = (l.2, p') from hs] at heffect
  cases heffect with
  | same hsame =>
    rw [show p' = p from hsame]
    exact h
  | abandoned _ hlives hlive => exact h.abandon hlives hlive
  | constructed hfree hlives hlive => exact h.construct hfree hlives hlive
  | destroyed hsome hlives hlive => exact h.destroy hsome hlives hlive

end Alternating

section Destructor

variable {p : Pool α} {slot : ℕ}

theorem destroyBlock_cases (hlt : slot < p.store.length) :
    freeAt p.store slot = true ∧ p.destroyBlock (fun _ p ↦ p) slot = p ∨
    freeAt p.store slot = false ∧ ∃ p', p.destroyBlock (fun _ p ↦ p) slot = p' ∧
      p'.store = p.store.set slot ⟨none, false⟩ ∧
      p'.lifetimes = p.lifetimes ++ [.destroyed slot] := by
  have hget := List.getElem?_eq_getElem hlt
  rw [freeAt_of_getElem? hget]
  unfold Pool.destroyBlock
  rw [hget]
  cases hflag : (p.store[slot]).isFree with
  | true => exact .inl ⟨rfl, by simp [hflag]⟩
  | false =>
    refine .inr ⟨rfl, _, rfl, ?_, by simp [hflag, Pool.record]⟩
    simp [hflag, Pool.record, List.modify_eq_set_getElem?, hget]

theorem Alternating.destroyAll {l : List ℕ} (hl : l.Nodup) {p : Pool α} (h : Alternating p)
    (hflags : ∀ i ∈ l, i < p.store.length ∧ (freeAt p.store i = true ↔ p.live i = none)) :
    Alternating (l.foldl (Pool.destroyBlock fun _ p ↦ p) p) ∧
      ∀ i, (l.foldl (Pool.destroyBlock fun _ p ↦ p) p).live i =
        if i ∈ l then none else p.live i := by
  induction l generalizing p with
  | nil => exact ⟨h, fun i ↦ by simp⟩
  | cons slot l ih =>
    obtain ⟨hslot, hl⟩ := List.nodup_cons.mp hl
    obtain ⟨hlt, hiff⟩ := hflags slot List.mem_cons_self
    have hrest := fun i (hi : i ∈ l) ↦ hflags i (List.mem_cons_of_mem slot hi)
    rw [List.foldl_cons]
    rcases destroyBlock_cases hlt with ⟨hfree, hstep⟩ | ⟨hfree, q, hstep, hstore, hlives⟩
    · rw [hstep]
      obtain ⟨hal, hlive⟩ := ih hl h hrest
      refine ⟨hal, fun i ↦ (hlive i).trans ?_⟩
      rcases eq_or_ne i slot with rfl | hne
      · simp [hiff.mp hfree]
      · simp [hne]
    · rw [hstep]
      have hset := live_set hlt hstore
      have hsome : (p.live slot).isSome := by
        rw [Option.isSome_iff_ne_none]
        exact fun hnone ↦ Bool.false_ne_true (hfree.symm.trans (hiff.mpr hnone))
      obtain ⟨hal, hlive⟩ := ih hl (h.destroy hsome hlives hset) fun i hi ↦ by
        have hne : i ≠ slot := fun heq ↦ hslot (heq ▸ hi)
        rw [hset, update_of_ne hne, hstore, List.length_set, freeAt,
          List.getElem?_set_ne hne.symm]
        exact hrest i hi
      refine ⟨hal, fun i ↦ (hlive i).trans ?_⟩
      rw [hset]
      rcases eq_or_ne i slot with rfl | hne
      · simp
      · simp [hne]

theorem Alternating.destructor (h : Alternating p) (hc : Consistent cap p) :
    Alternating (p.destructor fun _ p ↦ p) ∧ ∀ i, (p.destructor fun _ p ↦ p).live i = none := by
  obtain ⟨hal, hlive⟩ := h.destroyAll (l := List.range p.store.length) List.nodup_range
    fun i hi ↦ ⟨List.mem_range.mp hi, hc.free_iff (hc.length ▸ List.mem_range.mp hi)⟩
  refine ⟨hal, fun i ↦ (hlive i).trans ?_⟩
  split
  · rfl
  next hi =>
    rw [List.mem_range, Nat.not_lt] at hi
    rw [Pool.live, List.getElem?_eq_none hi]
    rfl

end Destructor

theorem run_alternating {lay : Layout} {ls : List (Op α × Result)} {p : Pool α}
    (h : Run (CallStep lay) (Pool.new cap) ls p) : Consistent cap p ∧ Alternating p := by
  refine h.invariant_state (fun p ↦ Consistent cap p ∧ Alternating p)
    ⟨new_consistent cap, new_alternating cap⟩ ?_
  rintro t l u ⟨hc, hal⟩ hs
  exact ⟨(call_refines lay hc hs).1, hal.call hc lay hs⟩

/-- Over the whole life of a pool, its destructor included, objects are
constructed and destroyed in turn in every slot: each completed construction is
followed by one destruction, and nothing else is destroyed. Before that, the
objects that live are as many as the slots that are not free. -/
theorem run_destroys_each_object_once (cap : Capacity) (lay : Layout)
    {ls : List (Op α × Result)} {p : Pool α} (h : Run (CallStep lay) (Pool.new cap) ls p) :
    p.numLive = cap.size - p.numFree ∧ p.numFree ≤ cap.size ∧
    (∀ i, ∃ k, completed i p.lifetimes =
      lives i k ++ if (p.live i).isSome then [.constructed i] else []) ∧
    (∀ i, ∃ k, completed i (p.destructor fun _ p ↦ p).lifetimes = lives i k) ∧
    ∀ i, (p.destructor fun _ p ↦ p).live i = none := by
  obtain ⟨hc, hal⟩ := run_alternating h
  have hsum := hc.numLive_add_numFree
  obtain ⟨hdead, hnone⟩ := hal.destructor hc
  refine ⟨by omega, by omega, hal, ?_, hnone⟩
  intro i
  obtain ⟨k, hk⟩ := hdead i
  refine ⟨k, ?_⟩
  rw [hk, hnone i]
  exact List.append_nil _

theorem run_destroys_each_object_once_forgotten :
    ∃ p : Pool ℕ, Run (CallStep ⟨64, 16, by decide, by decide⟩)
        (Pool.new ⟨2, by decide, by decide⟩)
        [(.allocate none, .threw), (.allocate (some 7), .object 64)] p ∧
      completed 0 (p.destructor fun _ p ↦ p).lifetimes = [.constructed 0, .destroyed 0] ∧
      p.numLive = 2 - p.numFree := by
  have hrun : Run (CallStep ⟨64, 16, by decide, by decide⟩)
      (Pool.new ⟨2, by decide, by decide⟩ : Pool ℕ)
      [(.allocate none, .threw), (.allocate (some 7), .object 64)] _ :=
    .cons rfl (.one rfl)
  exact ⟨_, hrun, by decide, (run_destroys_each_object_once _ _ hrun).1⟩

end LowLatency.MemPool
