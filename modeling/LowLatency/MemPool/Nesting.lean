import LowLatency.MemPool.Refinement

namespace LowLatency.MemPool

open Library.Words

variable {α : Type*} {cap : Capacity}

/-- What a constructor does with the pool: it completes or throws, or it calls
`allocate()` for another object and goes on with what that returns. -/
inductive Ctor (α : Type*)
  | finish (outcome : Option α)
  | allocate (child : Ctor α) (next : Result → Ctor α)

def Ctor.run (lay : Layout) : Ctor α → Pool α → Construction α × Pool α
  | .finish outcome, p => (.ofOption outcome, p)
  | .allocate child next, p =>
    match p.allocate lay (child.run lay) with
    -- A failed `assert` ends the program, the constructors around this one included.
    | (.assertFailed, p) => (.aborted, p)
    | (r, p) => (next r).run lay p

def Ctor.nests : Ctor α → Bool
  | .finish _ => false
  | .allocate .. => true

inductive Request (α : Type*)
  | allocate (ctor : Ctor α)
  | deallocate (elem : ℕ)

def Pool.serve (lay : Layout) (p : Pool α) : Request α → Result × Pool α
  | .allocate ctor => p.allocate lay (ctor.run lay)
  | .deallocate elem => p.deallocate lay id elem

def occupy (i n : ℕ) : Lifetime → ℕ
  | .started slot => if slot = i then n + 1 else n
  | .constructed _ => n
  | .abandoned slot | .destroyed slot => if slot = i then n - 1 else n

/-- The objects that are alive or under construction in a slot. -/
def occupants (i : ℕ) (lifetimes : List Lifetime) : ℕ := lifetimes.foldl (occupy i) 0

/-- At no time did two objects share a slot. -/
def NeverShared (lifetimes : List Lifetime) : Prop :=
  ∀ l, l <+: lifetimes → ∀ i, occupants i l ≤ 1

structure Bookkept (p : Pool α) : Prop where
  count : p.numFree = p.store.countP ObjectBlock.isFree
  cursor : 0 < p.numFree → freeAt p.store p.nextFreeIndex

/-- No constructor that runs calls `allocate()`. -/
def Unnested (p : Pool α) : Request α → Prop
  | .allocate ctor => p.numFree = 0 ∨ ctor.nests = false
  | .deallocate _ => True

def EveryCall (lay : Layout) (P : Pool α → Request α → Prop) : List (Request α) → Pool α → Prop
  | [], _ => True
  | r :: rs, p => P p r ∧ EveryCall lay P rs (p.serve lay r).2

theorem occupants_concat (i : ℕ) (l : List Lifetime) (e : Lifetime) :
    occupants i (l ++ [e]) = occupy i (occupants i l) e := List.foldl_concat ..

theorem NeverShared.nil : NeverShared [] := by
  intro l hl i
  rw [List.prefix_nil.mp hl]
  exact Nat.zero_le _

theorem NeverShared.concat {l : List Lifetime} (h : NeverShared l) {e : Lifetime}
    (he : ∀ i, occupy i (occupants i l) e ≤ 1) : NeverShared (l ++ [e]) := by
  intro l' hl' i
  rcases List.prefix_concat_iff.mp hl' with rfl | hl'
  · rw [occupants_concat]
    exact he i
  · exact h l' hl' i

/-- A pool whose history has one object in the slots where an object lives, and
none in the others. -/
structure Orderly (cap : Capacity) (p : Pool α) : Prop where
  consistent : Consistent cap p
  tracked : ∀ i, occupants i p.lifetimes = if (p.live i).isSome then 1 else 0
  unshared : NeverShared p.lifetimes

theorem new_orderly (cap : Capacity) : Orderly cap (Pool.new cap : Pool α) := by
  refine ⟨new_consistent cap, ?_, .nil⟩
  intro i
  rw [new_live]
  rfl

namespace Orderly

variable {p p' : Pool α} {slot : ℕ}

theorem le_one (h : Orderly cap p) (i : ℕ) : occupants i p.lifetimes ≤ 1 := by
  rw [h.tracked]
  split
  · exact Nat.le_refl 1
  · exact Nat.zero_le 1

theorem started (h : Orderly cap p) (hfree : p.live slot = none) :
    NeverShared (p.lifetimes ++ [.started slot]) := by
  refine h.unshared.concat ?_
  intro i
  have hi := h.le_one i
  rcases eq_or_ne slot i with rfl | hne
  · have hzero := h.tracked slot
    rw [hfree] at hzero
    simp [occupy, hzero]
  · simpa [occupy, hne] using hi

theorem construct (h : Orderly cap p) (hp' : Consistent cap p') (hfree : p.live slot = none) {v : α}
    (hlives : p'.lifetimes = p.lifetimes ++ [.started slot, .constructed slot])
    (hlive : p'.live = Function.update p.live slot (some v)) : Orderly cap p' := by
  have hsplit : p'.lifetimes = p.lifetimes ++ [.started slot] ++ [.constructed slot] := by
    rw [hlives, List.append_assoc]
    rfl
  have hstarted := h.started hfree
  refine ⟨hp', ?_, ?_⟩
  · intro i
    rw [hsplit, occupants_concat, occupants_concat, h.tracked, hlive]
    rcases eq_or_ne i slot with rfl | hne
    · simp [occupy, hfree]
    · simp [occupy, hne, hne.symm]
  · rw [hsplit]
    exact hstarted.concat fun i ↦ hstarted _ List.prefix_rfl i

theorem abandon (h : Orderly cap p) (hp' : Consistent cap p') (hfree : p.live slot = none)
    (hlives : p'.lifetimes = p.lifetimes ++ [.started slot, .abandoned slot])
    (hlive : p'.live = p.live) : Orderly cap p' := by
  have hsplit : p'.lifetimes = p.lifetimes ++ [.started slot] ++ [.abandoned slot] := by
    rw [hlives, List.append_assoc]
    rfl
  have hback (i : ℕ) : occupy i (occupants i (p.lifetimes ++ [.started slot])) (.abandoned slot) =
      occupants i p.lifetimes := by
    rw [occupants_concat]
    rcases eq_or_ne slot i with rfl | hne
    · simp [occupy]
    · simp [occupy, hne]
  refine ⟨hp', ?_, ?_⟩
  · intro i
    rw [hsplit, occupants_concat, hback, hlive, h.tracked]
  · rw [hsplit]
    refine (h.started hfree).concat ?_
    intro i
    rw [hback]
    exact h.le_one i

theorem destroy (h : Orderly cap p) (hp' : Consistent cap p') (hsome : (p.live slot).isSome)
    (hlives : p'.lifetimes = p.lifetimes ++ [.destroyed slot])
    (hlive : p'.live = Function.update p.live slot none) : Orderly cap p' := by
  refine ⟨hp', ?_, ?_⟩
  · intro i
    rw [hlives, occupants_concat, h.tracked, hlive]
    rcases eq_or_ne i slot with rfl | hne
    · simp [occupy, hsome]
    · simp [occupy, hne, hne.symm]
  · rw [hlives]
    refine h.unshared.concat ?_
    intro i
    have hi := h.le_one i
    rcases eq_or_ne slot i with rfl | hne
    · simp [occupy]
      omega
    · simpa [occupy, hne] using hi

theorem call (h : Orderly cap p) (lay : Layout) (op : Op α) : Orderly cap (p.call lay op).2 := by
  have hp' := h.consistent.call lay op
  cases call_effect lay h.consistent op with
  | same hsame =>
    rw [hsame]
    exact h
  | abandoned hfree hlives hlive => exact h.abandon hp' hfree hlives hlive
  | constructed hfree hlives hlive => exact h.construct hp' hfree hlives hlive
  | destroyed hsome hlives hlive => exact h.destroy hp' hsome hlives hlive

end Orderly

section History

variable (lay : Layout)

theorem record_extends (p : Pool α) (e : Lifetime) : p.lifetimes <+: (p.record e).lifetimes :=
  List.prefix_append ..

theorem commit_extends (p : Pool α) (slot : ℕ) (v : α) :
    p.lifetimes <+: (p.commit lay slot v).2.lifetimes := by
  have hrecord := record_extends p (.constructed slot)
  unfold Pool.commit
  dsimp only
  split
  · split <;> exact hrecord
  · exact hrecord

theorem allocate_extends {construct : Pool α → Construction α × Pool α}
    (hconstruct : ∀ p, p.lifetimes <+: (construct p).2.lifetimes) (p : Pool α) :
    p.lifetimes <+: (p.allocate lay construct).2.lifetimes := by
  unfold Pool.allocate
  split
  · exact List.prefix_rfl
  · split
    · exact List.prefix_rfl
    · split
      · have hrun := (record_extends p (.started p.nextFreeIndex)).trans (hconstruct _)
        dsimp only
        split
        next q hq =>
          rw [hq] at hrun
          exact hrun
        next q hq =>
          rw [hq] at hrun
          exact hrun.trans (record_extends q _)
        next v q hq =>
          rw [hq] at hrun
          exact hrun.trans (commit_extends lay q _ v)
      · exact List.prefix_rfl

theorem Ctor.run_extends (ctor : Ctor α) (p : Pool α) :
    p.lifetimes <+: (ctor.run lay p).2.lifetimes := by
  induction ctor generalizing p with
  | finish outcome => exact List.prefix_rfl
  | allocate child next ihchild ihnext =>
    have hcall := allocate_extends lay ihchild p
    unfold Ctor.run
    split
    next q hq =>
      rw [hq] at hcall
      exact hcall
    next r q _ hq =>
      rw [hq] at hcall
      exact hcall.trans (ihnext r q)

theorem history_of_construct {p : Pool α} (hpos : 0 < p.numFree)
    (hfree : freeAt p.store p.nextFreeIndex) (construct : Pool α → Construction α × Pool α) :
    (construct (p.record (.started p.nextFreeIndex))).2.lifetimes <+:
      (p.allocate lay construct).2.lifetimes := by
  rw [allocate_eq lay hpos hfree]
  split
  next q hq => simp only [hq, List.prefix_rfl]
  next q hq =>
    rw [hq]
    exact record_extends q _
  next v q hq =>
    rw [hq]
    exact commit_extends lay q _ v

/-- The nested call finds the cursor, the flag and the count as the outer call
has found them, and starts its object in the same slot. -/
theorem nested_started {p : Pool α} (hpos : 0 < p.numFree)
    (hfree : freeAt p.store p.nextFreeIndex) (child : Ctor α) (next : Result → Ctor α) :
    p.lifetimes ++ [.started p.nextFreeIndex, .started p.nextFreeIndex] <+:
      (p.allocate lay ((Ctor.allocate child next).run lay)).2.lifetimes := by
  refine List.IsPrefix.trans ?_ (history_of_construct lay hpos hfree _)
  set p₁ := p.record (.started p.nextFreeIndex) with hp₁
  have hinner : (p₁.record (.started p.nextFreeIndex)).lifetimes <+:
      (p₁.allocate lay (child.run lay)).2.lifetimes := by
    have hpos₁ : 0 < p₁.numFree := hpos
    have hfree₁ : freeAt p₁.store p₁.nextFreeIndex := hfree
    exact (child.run_extends lay _).trans (history_of_construct lay hpos₁ hfree₁ (child.run lay))
  have hlives : p.lifetimes ++ [.started p.nextFreeIndex, .started p.nextFreeIndex] =
      (p₁.record (.started p.nextFreeIndex)).lifetimes := by
    simp [hp₁, Pool.record]
  rw [hlives]
  unfold Ctor.run
  split
  next q hq =>
    rw [hq] at hinner
    exact hinner
  next r q _ hq =>
    rw [hq] at hinner
    exact hinner.trans ((next r).run_extends lay q)

end History

namespace Orderly

variable {p : Pool α}

theorem bookkept (h : Orderly cap p) : Bookkept p := ⟨h.consistent.count, h.consistent.cursor_free⟩

theorem serve (h : Orderly cap p) (lay : Layout) {r : Request α} (hr : Unnested p r) :
    Orderly cap (p.serve lay r).2 := by
  cases r with
  | deallocate elem => exact h.call lay (.deallocate elem)
  | allocate ctor =>
    cases ctor with
    | finish outcome => exact h.call lay (.allocate outcome)
    | allocate child next =>
      rcases hr with hzero | hr
      · have hcall : p.serve lay (.allocate (.allocate child next)) = (.nullptr, p) :=
          if_pos hzero
        rw [hcall]
        exact h
      · cases hr

theorem shared (h : Orderly cap p) (lay : Layout) {r : Request α} (hr : ¬ Unnested p r) :
    ¬ NeverShared (p.serve lay r).2.lifetimes := by
  cases r with
  | deallocate elem => exact absurd trivial hr
  | allocate ctor =>
    cases ctor with
    | finish outcome => exact absurd (.inr rfl) hr
    | allocate child next =>
      have hpos : 0 < p.numFree := Nat.pos_of_ne_zero fun hzero ↦ hr (.inl hzero)
      have hfree := h.consistent.cursor_free hpos
      have hnone := (h.consistent.free_iff h.consistent.cursor_lt).mp hfree
      intro hshared
      have htwo := hshared _ (nested_started lay hpos hfree child next) p.nextFreeIndex
      rw [List.append_cons, occupants_concat, occupants_concat, h.tracked, hnone] at htwo
      simp [occupy] at htwo

end Orderly

/-- A run of calls keeps the slots exclusive and the bookkeeping exact after
every call if and only if no constructor that runs in it calls `allocate()`. -/
theorem run_exclusive_iff (cap : Capacity) (lay : Layout) (rs : List (Request α)) :
    EveryCall lay (fun p r ↦ NeverShared (p.serve lay r).2.lifetimes ∧
      Bookkept (p.serve lay r).2) rs (Pool.new cap) ↔
    EveryCall lay Unnested rs (Pool.new cap) := by
  have hnew := new_orderly (α := α) cap
  generalize Pool.new cap = p at hnew
  induction rs generalizing p with
  | nil => exact Iff.rfl
  | cons r rs ih =>
    constructor
    · intro hevery
      obtain ⟨hcall, hrest⟩ := hevery
      have hr : Unnested p r := by
        by_contra hr
        exact hnew.shared lay hr hcall.1
      exact ⟨hr, (ih _ (hnew.serve lay hr)).mp hrest⟩
    · intro hevery
      obtain ⟨hr, hrest⟩ := hevery
      have hp := hnew.serve lay hr
      exact ⟨⟨hp.unshared, hp.bookkept⟩, (ih _ hp).mpr hrest⟩

/-- A parent that allocates its child in its constructor, in a new pool of two
slots: both get the first slot, and the second one is free and out of reach. -/
theorem nested_allocate_shares :
    let lay : Layout := ⟨64, 16, by decide, by decide⟩
    let parent : Ctor ℕ := .allocate (.finish (some 2)) fun _ ↦ .finish (some 1)
    let p := (Pool.new ⟨2, by decide, by decide⟩).serve lay (.allocate parent)
    p.1 = .object 64 ∧
      p.2.lifetimes = [.started 0, .started 0, .constructed 0, .constructed 0] ∧
      ¬ NeverShared p.2.lifetimes ∧ p.2.numFree = 0 ∧ freeAt p.2.store 1 ∧ ¬ Bookkept p.2 := by
  refine ⟨by decide, by decide, ?_, by decide, by decide, ?_⟩
  · intro h
    have htwo := h [.started 0, .started 0] ⟨[.constructed 0, .constructed 0], by decide⟩ 0
    exact absurd htwo (by decide)
  · intro h
    exact absurd h.count (by decide)

end LowLatency.MemPool
