import LowLatency.MemPool.Refinement

namespace LowLatency.MemPool

open Library.Runs Library.Words

variable {α : Type*} {cap : Capacity}

/-- The objects of a sequence of calls that are still live, the latest first, as
long as each call is a successful `allocate()` or the `deallocate()` of the
latest object. -/
def stackStep : Option (List ℕ) → Op α × Result → Option (List ℕ)
  | some stack, (.allocate _, .object address) => some (address :: stack)
  | some (address :: stack), (.deallocate elem, .released true) =>
    if elem = address then some stack else none
  | _, _ => none

/-- Calls that are properly nested and leave none of their objects behind. -/
def Nested (ls : List (Op α × Result)) : Prop := ls.foldl stackStep (some []) = some []

namespace Pool.SameBookkeeping

variable {p q r : Pool α}

theorem refl (p : Pool α) : p.SameBookkeeping p := ⟨rfl, rfl, rfl⟩

theorem trans (h : p.SameBookkeeping q) (h' : q.SameBookkeeping r) : p.SameBookkeeping r :=
  ⟨h'.1.trans h.1, h'.2.1.trans h.2.1, h'.2.2.trans h.2.2⟩

theorem record (p : Pool α) (e : Lifetime) : p.SameBookkeeping (p.record e) := ⟨rfl, rfl, rfl⟩

theorem release (h : p.SameBookkeeping q) (i : ℕ) :
    (p.release i).SameBookkeeping (q.release i) := by
  obtain ⟨hstore, hnum, -⟩ := h
  refine ⟨?_, ?_, rfl⟩
  · rw [Pool.release, hstore]
    rfl
  · rw [Pool.release, hnum]
    rfl

theorem search (h : p.SameBookkeeping q) : updateNextFreeIndex q = updateNextFreeIndex p := by
  rw [updateNextFreeIndex, h.1, h.2.2]
  rfl

theorem commit (h : p.SameBookkeeping q) (lay : Layout) (slot : ℕ) (v : α) :
    (p.commit lay slot v).1 = (q.commit lay slot v).1 ∧
      (p.commit lay slot v).2.SameBookkeeping (q.commit lay slot v).2 := by
  unfold Pool.commit
  -- The pools are still alike when the flag is set and the slot is counted.
  have hset : Pool.SameBookkeeping
      { p.record (.constructed slot) with
        store := p.store.set slot ⟨some v, false⟩, numFree := sizeSub p.numFree 1 }
      { q.record (.constructed slot) with
        store := q.store.set slot ⟨some v, false⟩, numFree := sizeSub q.numFree 1 } := by
    refine ⟨?_, ?_, h.2.2⟩
    · rw [h.1]
    · rw [h.2.1]
  generalize ({ p.record (.constructed slot) with
    store := p.store.set slot ⟨some v, false⟩, numFree := sizeSub p.numFree 1 } : Pool α) = p'
    at hset
  generalize ({ q.record (.constructed slot) with
    store := q.store.set slot ⟨some v, false⟩, numFree := sizeSub q.numFree 1 } : Pool α) = q'
    at hset
  dsimp only
  rw [hset.2.1, hset.search]
  split
  · cases updateNextFreeIndex p' with
    | found | noFreeBlock | outOfRange | running => exact ⟨rfl, hset.1, rfl, rfl⟩
  · exact ⟨rfl, hset⟩

theorem call (h : p.SameBookkeeping q) (lay : Layout) (op : Op α) :
    (p.call lay op).1 = (q.call lay op).1 ∧
      (p.call lay op).2.SameBookkeeping (q.call lay op).2 := by
  obtain ⟨hstore, hnum, hnext⟩ := h
  cases op with
  | allocate outcome =>
    simp only [Pool.call, Pool.allocate, hstore, hnum, hnext]
    split
    · exact ⟨rfl, hstore, hnum, hnext⟩
    · cases p.store[p.nextFreeIndex]? with
      | none => exact ⟨rfl, hstore, hnum, hnext⟩
      | some block =>
        dsimp only
        split
        · cases outcome with
          | none => exact ⟨rfl, hstore, hnum, hnext⟩
          | some v =>
            have hstarted : (p.record (.started p.nextFreeIndex)).SameBookkeeping
                (q.record (.started p.nextFreeIndex)) := ⟨hstore, hnum, hnext⟩
            exact hstarted.commit lay p.nextFreeIndex v
        · exact ⟨rfl, hstore, hnum, hnext⟩
  | deallocate elem =>
    have hfind : q.findSlot lay elem = p.findSlot lay elem := by
      rw [Pool.findSlot, hstore]
      rfl
    simp only [Pool.call, Pool.deallocate, hfind]
    split
    · exact ⟨rfl, hstore, hnum, hnext⟩
    · cases p.findSlot lay elem with
      | none => exact ⟨rfl, hstore, hnum, hnext⟩
      | some slot =>
        dsimp only
        rw [hstore]
        cases p.store[slot]? with
        | none => exact ⟨rfl, hstore, hnum, hnext⟩
        | some block =>
          dsimp only
          split
          · exact ⟨rfl, hstore, hnum, hnext⟩
          · have hdestroyed : (p.record (.destroyed slot)).SameBookkeeping
                (q.record (.destroyed slot)) := ⟨hstore, hnum, hnext⟩
            exact ⟨rfl, hdestroyed.release slot⟩

end Pool.SameBookkeeping

/-- Releasing the objects of the stack, one after the other, leads back to the
bookkeeping of `p`. -/
def Unwinds (lay : Layout) (p : Pool α) : List ℕ → Pool α → Prop
  | [], q => p.SameBookkeeping q
  | address :: stack, q => ∃ i, address = lay.address i ∧ i < q.store.length ∧
      freeAt q.store i = false ∧ Unwinds lay p stack (q.release i)

section Unwinding

variable {lay : Layout} {p q q' : Pool α} {stack stack' : List ℕ}

theorem Unwinds.congr (h : Unwinds lay p stack q) (hq : q.SameBookkeeping q') :
    Unwinds lay p stack q' := by
  induction stack generalizing q q' with
  | nil => exact Pool.SameBookkeeping.trans h hq
  | cons address stack ih =>
    obtain ⟨i, haddress, hi, hfree, hrest⟩ := h
    refine ⟨i, haddress, ?_, ?_, ih hrest (hq.release i)⟩
    · rwa [hq.1]
    · rwa [hq.1]

/-- Releasing the slot that an `allocate()` has just filled undoes it: the cursor
is back at the slot it stood at. -/
theorem release_allocated (h : Consistent cap q) (h' : Consistent cap q') {v : α}
    (hpos : 0 < q.numFree) (hstore : q'.store = q.store.set q.nextFreeIndex ⟨some v, false⟩) :
    q.nextFreeIndex < q'.store.length ∧ freeAt q'.store q.nextFreeIndex = false ∧
      q.SameBookkeeping (q'.release q.nextFreeIndex) := by
  have hfree := h.cursor_free hpos
  have hlt := freeAt_lt hfree
  have hlt' : q.nextFreeIndex < q'.store.length := by
    rw [hstore, List.length_set]
    exact hlt
  have htaken : freeAt q'.store q.nextFreeIndex = false := by
    simp [freeAt, hstore, hlt]
  have hback : (q'.release q.nextFreeIndex).store = q.store := by
    have hget : q.store[q.nextFreeIndex] = ⟨none, true⟩ := by
      have hflag := h.flags _ (List.getElem_mem hlt)
      rw [freeAt_of_getElem? (List.getElem?_eq_getElem hlt)] at hfree
      generalize q.store[q.nextFreeIndex] = b at hflag hfree
      obtain ⟨object, isFree⟩ := b
      dsimp only at hflag hfree
      rw [hfree, eq_comm, Option.isNone_iff_eq_none] at hflag
      rw [hflag, hfree]
    rw [Pool.release, hstore, List.set_set, ← hget, List.set_getElem_self]
  refine ⟨hlt', htaken, hback, ?_, rfl⟩
  have hcount := (h'.release (h'.length ▸ hlt') htaken).count
  rw [hcount, h.count, hback]

theorem Unwinds.step (h : Unwinds lay p stack q) (hq : Consistent cap q)
    {l : Op α × Result} (hs : CallStep lay q l q')
    (hstack : stackStep (some stack) l = some stack') : Unwinds lay p stack' q' := by
  obtain ⟨op, r⟩ := l
  cases op with
  | allocate outcome =>
    rcases allocate_cases lay hq outcome with ⟨-, hcall⟩ | ⟨-, -, t, hcall, -, -, -⟩ |
      ⟨hpos, v, -, t, hcall, ht, hstore, -⟩
    · obtain ⟨rfl, -⟩ := Prod.ext_iff.mp (hcall.symm.trans hs)
      cases hstack
    · obtain ⟨rfl, -⟩ := Prod.ext_iff.mp (hcall.symm.trans hs)
      cases hstack
    · obtain ⟨rfl, rfl⟩ := Prod.ext_iff.mp (hcall.symm.trans hs)
      cases hstack
      obtain ⟨hlt, hfree, hback⟩ := release_allocated hq ht hpos hstore
      exact ⟨q.nextFreeIndex, rfl, hlt, hfree, h.congr hback⟩
  | deallocate elem =>
    cases stack with
    | nil => simp [stackStep] at hstack
    | cons address stack =>
      obtain ⟨i, rfl, hi, hfree, hrest⟩ := h
      by_cases htop : elem = lay.address i
      · subst htop
        obtain ⟨rfl, rfl⟩ := Prod.ext_iff.mp ((deallocate_eq lay hi hfree id).symm.trans hs)
        have hstack' : stack' = stack := by simpa [stackStep] using hstack.symm
        rw [hstack']
        exact hrest.congr ((Pool.SameBookkeeping.record q _).release i)
      · cases r with
        | released accepted => cases accepted <;> simp [stackStep, htop] at hstack
        | nullptr | object | threw | assertFailed => cases hstack

theorem Nested.restores {ls : List (Op α × Result)} (hp : Consistent cap p)
    (h : Run (CallStep lay) p ls q) (hls : Nested ls) : p.SameBookkeeping q := by
  have hall : Consistent cap q ∧ ∀ stack, ls.foldl stackStep (some []) = some stack →
      Unwinds lay p stack q := by
    refine h.invariant (fun ls q ↦ Consistent cap q ∧ ∀ stack,
      ls.foldl stackStep (some []) = some stack → Unwinds lay p stack q) ?_ ?_
    · refine ⟨hp, ?_⟩
      intro stack hstack
      cases hstack
      exact .refl p
    · intro ls t l u ht hs
      refine ⟨(call_refines lay ht.1 hs).1, ?_⟩
      intro stack hstack
      rw [List.foldl_concat] at hstack
      cases hbefore : ls.foldl stackStep (some []) with
      | none =>
        rw [hbefore] at hstack
        cases hstack
      | some before =>
        rw [hbefore] at hstack
        exact (ht.2 before hbefore).step ht.1 hs hstack
  exact hall.2 [] hls

end Unwinding

theorem reallocates {lay : Layout} {p : Pool α} (h : Consistent cap p) {i : ℕ}
    (hi : (p.live i).isSome) (v : α) :
    ∃ q r, p.call lay (.deallocate (lay.address i)) = (.released true, q) ∧
      q.call lay (.allocate (some v)) = (.object (lay.address i), r) ∧
      r.store.map ObjectBlock.isFree = p.store.map ObjectBlock.isFree ∧
      r.numFree = p.numFree := by
  obtain ⟨hlt, hfree⟩ := h.occupied hi
  have hlt' : i < p.store.length := h.length ▸ hlt
  have hq : Consistent cap ((p.record (.destroyed i)).release i) :=
    (h.record _).release hlt hfree
  have hpos : 0 < ((p.record (.destroyed i)).release i).numFree := by
    have hempty := countP_empty hlt' hfree
    rw [hq.count]
    exact hempty ▸ Nat.succ_pos _
  rcases allocate_cases lay hq (some v) with ⟨hzero, -⟩ | ⟨-, hnone, -⟩ |
    ⟨-, w, hw, r, hcall, hr, hstore, -⟩
  · omega
  · cases hnone
  · cases hw
    have hflags : r.store.map ObjectBlock.isFree = p.store.map ObjectBlock.isFree := by
      have hget := List.getElem?_eq_getElem hlt'
      rw [freeAt_of_getElem? hget] at hfree
      have hset : r.store = p.store.set i ⟨some v, false⟩ := by
        rw [hstore]
        exact List.set_set ..
      rw [hset, List.map_set]
      apply List.ext_getElem
      · rw [List.length_set]
      · intro j hj hj'
        rw [List.getElem_set]
        split
        next heq =>
          subst heq
          rw [List.getElem_map, hfree]
        next => rfl
    refine ⟨_, r, deallocate_eq lay hlt' hfree id, hcall, hflags, ?_⟩
    have hcount (s : List (ObjectBlock α)) :
        s.countP ObjectBlock.isFree = (s.map ObjectBlock.isFree).countP id := by
      rw [List.countP_map]
      rfl
    rw [hr.count, h.count, hcount, hflags, ← hcount]

/-- Properly nested calls on any reachable pool leave the flags, the count and
the cursor as they were, so that all later calls answer as they would have
before. An object that is freed is given back by the next `allocate()`. -/
theorem run_reverses (cap : Capacity) (lay : Layout) {ls : List (Op α × Result)} {p : Pool α}
    (h : Run (CallStep lay) (Pool.new cap) ls p) :
    (∀ ms q, Run (CallStep lay) p ms q → Nested ms → p.SameBookkeeping q ∧
      ∀ ops, (feed (fun op p ↦ p.call lay op) ops q).1 =
        (feed (fun op p ↦ p.call lay op) ops p).1) ∧
    ∀ i, (p.live i).isSome → ∀ v, ∃ q r,
      p.call lay (.deallocate (lay.address i)) = (.released true, q) ∧
      q.call lay (.allocate (some v)) = (.object (lay.address i), r) ∧
      r.store.map ObjectBlock.isFree = p.store.map ObjectBlock.isFree ∧
      r.numFree = p.numFree := by
  have hp : Consistent cap p := h.invariant_state (Consistent cap) (new_consistent cap)
    fun _ _ _ hq hs ↦ (call_refines lay hq hs).1
  constructor
  · intro ms q hrun hnested
    have hsame := hnested.restores hp hrun
    refine ⟨hsame, ?_⟩
    intro ops
    exact (feed_bisim Pool.SameBookkeeping (fun op p q hpq ↦ hpq.call lay op) hsame ops).symm
  · intro i hi v
    exact reallocates hp hi v

theorem run_reverses_two :
    ∃ p q : Pool ℕ, Run (CallStep ⟨64, 16, by decide, by decide⟩) p
        [(.allocate (some 1), .object 64), (.allocate (some 2), .object 80),
          (.deallocate 80, .released true), (.deallocate 64, .released true)] q ∧
      p.SameBookkeeping q := by
  have hrun : Run (CallStep ⟨64, 16, by decide, by decide⟩)
      (Pool.new ⟨2, by decide, by decide⟩ : Pool ℕ)
      [(.allocate (some 1), .object 64), (.allocate (some 2), .object 80),
        (.deallocate 80, .released true), (.deallocate 64, .released true)] _ :=
    .cons rfl (.cons rfl (.cons rfl (.one rfl)))
  exact ⟨_, _, hrun, ((run_reverses ⟨2, by decide, by decide⟩ _ .nil).1 _ _ hrun rfl).1⟩

end LowLatency.MemPool
