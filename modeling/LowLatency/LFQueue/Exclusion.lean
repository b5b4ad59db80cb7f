import LowLatency.LFQueue.Refinement

namespace LowLatency.LFQueue

open Library.Runs Library.Words Library.BoundedFifo Library.RingWindow

variable {α : Type*} {cap : Capacity}

def slotBefore (cap : Capacity) (next : ℕ) : ℕ := (next + cap.size - 1) % cap.size

/-- The slot that the producer may write, from its check of `num_elements_` to
its `++num_elements_`. -/
def State.writerSlot (cap : Capacity) (s : State α) : Option ℕ :=
  match s.producer with
  | .ready slot _ => slot
  | .checked _ => some s.queue.nextWriteIndex
  | .loaded i _ => some i
  | .advanced _ => some (slotBefore cap s.queue.nextWriteIndex)

def State.readerSlot (cap : Capacity) (s : State α) : Option ℕ :=
  match s.consumer with
  | .ready slot _ => slot
  | .checked _ | .asserted _ => some s.queue.nextReadIndex
  | .loaded i _ => some i
  | .advanced _ => some (slotBefore cap s.queue.nextReadIndex)
  | .aborted => none

theorem slotBefore_succ {i : ℕ} (hi : i < cap.size) : slotBefore cap ((i + 1) % cap.size) = i := by
  unfold slotBefore
  rcases Nat.lt_or_ge (i + 1) cap.size with hlt | hge
  · rw [Nat.mod_eq_of_lt hlt, show i + 1 + cap.size - 1 = i + cap.size by omega,
      Nat.add_mod_right, Nat.mod_eq_of_lt hi]
  · obtain rfl : i = cap.size - 1 := by omega
    have hpos := cap.pos
    rw [show cap.size - 1 + 1 = cap.size by omega, Nat.mod_self, Nat.zero_add]
    exact Nat.mod_eq_of_lt hi

/-- A thread that is between two of its calls and holds no slot has nothing left
to publish or to release. -/
structure Settled (s : State α) : Prop where
  producer : ∀ written, s.producer = .ready none written → written = none
  consumer : ∀ value, s.consumer = .ready none value → value = none

theorem initial_settled (store : ℕ → α) : Settled (State.initial store) := by
  constructor
  · rintro written ⟨⟩
    rfl
  · rintro value ⟨⟩
    rfl

section Aligned

variable {s s' : State α} {q : List α} {head : ℕ} {l : Option (Op α)}

theorem Settled.step (h : Settled s) (hal : Aligned cap s q head) (hs : Step cap s l s') :
    Settled s' := by
  have hroom := hal.room
  have helement := hal.some_element
  have hcount := hal.count
  obtain ⟨hp, hc⟩ := h
  cases hs with
  | @writeFull m c slot written hn =>
    refine ⟨?_, hc⟩
    intro w hw
    cases hw
    cases written with
    | none => rfl
    | some v =>
      have hlt := hroom (.inr rfl)
      simp only at hcount
      omega
  | @readEmpty m p slot value hn =>
    refine ⟨hp, ?_⟩
    intro w hw
    cases hw
    cases value with
    | none => rfl
    | some v =>
      have hpos := helement (.inr rfl)
      simp only at hcount
      omega
  | publishCount =>
    refine ⟨?_, hc⟩
    intro w hw
    cases hw
    rfl
  | releaseCount =>
    refine ⟨hp, ?_⟩
    intro w hw
    cases hw
    rfl
  | writeCheck | writeLoad | write | publishLoad | publishStore => exact ⟨nofun, hc⟩
  | readCheck | readLoad | read | releaseAssert | releaseAbort | releaseLoad | releaseStore =>
    exact ⟨hp, nofun⟩
  | size => exact ⟨hp, hc⟩

theorem Settled.writerSlot (h : Settled s) (hr : s.producer.Reserved) :
    (s.writerSlot cap).isSome := by
  unfold State.writerSlot
  cases hp : s.producer with
  | ready slot written =>
    cases slot with
    | some i => rfl
    | none =>
      rw [hp] at hr
      rw [h.producer written hp] at hr
      exact hr.elim id id
  | checked | loaded | advanced => rfl

theorem Settled.readerSlot (h : Settled s) (hr : s.consumer.Reserved) :
    (s.readerSlot cap).isSome := by
  unfold State.readerSlot
  cases hc : s.consumer with
  | ready slot value =>
    cases slot with
    | some i => rfl
    | none =>
      rw [hc] at hr
      rw [h.consumer value hc] at hr
      exact hr.elim id id
  | checked | asserted | loaded | advanced => rfl
  | aborted =>
    rw [hc] at hr
    exact hr.elim

theorem Aligned.writerSlot_eq (h : Aligned cap s q head) {i : ℕ} (hi : i ∈ s.writerSlot cap) :
    s.producer.Reserved ∧ i = (head + q.length) % cap.size := by
  have hlt : (head + q.length) % cap.size < cap.size := Nat.mod_lt _ cap.pos
  have hindex := h.writeIndex
  have hslot := h.writeSlot i
  unfold State.writerSlot at hi
  cases hp : s.producer with
  | ready slot written =>
    rw [hp] at hi hslot
    exact ⟨Producer.reserved_of_index hi, hslot hi⟩
  | checked written =>
    rw [hp] at hi hindex
    exact ⟨trivial, (Option.some.inj hi).symm.trans hindex⟩
  | loaded j v =>
    rw [hp] at hi hslot
    exact ⟨trivial, hslot hi⟩
  | advanced v =>
    rw [hp] at hi hindex
    refine ⟨trivial, (Option.some.inj hi).symm.trans ?_⟩
    rw [hindex, Producer.lead, ← Nat.mod_add_mod, slotBefore_succ hlt]

theorem Aligned.readerSlot_eq (h : Aligned cap s q head) {i : ℕ} (hi : i ∈ s.readerSlot cap) :
    s.consumer.Reserved ∧ i = head := by
  have hindex := h.readIndex
  have hslot := h.readSlot i
  have hhead : (head + 0) % cap.size = head := Nat.mod_eq_of_lt h.head_lt
  unfold State.readerSlot at hi
  cases hc : s.consumer with
  | ready slot value =>
    rw [hc] at hi hslot
    exact ⟨Consumer.reserved_of_index hi, hslot hi⟩
  | checked | asserted =>
    rw [hc] at hi hindex
    exact ⟨trivial, (Option.some.inj hi).symm.trans (hindex.trans hhead)⟩
  | loaded j v =>
    rw [hc] at hi hslot
    exact ⟨trivial, hslot hi⟩
  | advanced v =>
    rw [hc] at hi hindex
    refine ⟨trivial, (Option.some.inj hi).symm.trans ?_⟩
    rw [hindex, Consumer.lead, slotBefore_succ h.head_lt]
  | aborted =>
    rw [hc] at hi
    cases hi

theorem Aligned.exclusive (h : Aligned cap s q head) {i j : ℕ} (hi : i ∈ s.writerSlot cap)
    (hj : j ∈ s.readerSlot cap) : i ≠ j := by
  obtain ⟨hp, rfl⟩ := h.writerSlot_eq hi
  obtain ⟨hc, rfl⟩ := h.readerSlot_eq hj
  exact h.ends_ne hp hc

end Aligned

/-- What the two threads and any observer can rely on in a state. -/
structure Exclusive (cap : Capacity) (s : State α) : Prop where
  writer_holds : s.producer.Reserved → (s.writerSlot cap).isSome
  reader_holds : s.consumer.Reserved → (s.readerSlot cap).isSome
  slots_ne : ∀ i ∈ s.writerSlot cap, ∀ j ∈ s.readerSlot cap, i ≠ j
  writeIndex_lt : s.queue.nextWriteIndex < cap.size
  readIndex_lt : s.queue.nextReadIndex < cap.size
  count_le : s.queue.numElements ≤ cap.size
  increment_exact : ∀ v, s.producer = .advanced v →
    s.queue.increment.numElements = s.queue.numElements + 1 ∧
      s.queue.numElements + 1 ≤ cap.size
  decrement_exact : ∀ v, s.consumer = .advanced v →
    s.queue.decrement.numElements + 1 = s.queue.numElements
  not_aborted : s.consumer ≠ .aborted

theorem Aligned.exclusion {s : State α} {q : List α} {head : ℕ} (h : Aligned cap s q head)
    (hs : Settled s) : Exclusive cap s := by
  have hbound := h.bound
  have hcount := h.count
  have hfits := cap.fits
  refine ⟨hs.writerSlot, hs.readerSlot, fun i hi j hj ↦ h.exclusive hi hj, ?_, ?_, hcount ▸ hbound,
    fun v hv ↦ ?_, fun v hv ↦ ?_, h.not_aborted⟩
  · rw [h.writeIndex]
    exact Nat.mod_lt _ cap.pos
  · rw [h.readIndex]
    exact Nat.mod_lt _ cap.pos
  · have hroom := h.room (by rw [hv]; trivial)
    refine ⟨?_, by omega⟩
    exact sizeAdd_eq (by omega)
  · have hpos := h.some_element (by rw [hv]; trivial)
    have hsub : s.queue.decrement.numElements = s.queue.numElements - 1 := sizeSub_eq (by omega)
    omega

/-- In every state of every interleaving the slot that the producer may write
and the slot that the consumer may read are different ones, the indices and the
counter are in range, and no observer sees a larger size than the capacity. -/
theorem run_slot_exclusion (cap : Capacity) (store : ℕ → α) {ls : List (Option (Op α))}
    {s : State α} (h : Run (Step cap) (State.initial store) ls s) :
    Exclusive cap s ∧ ∀ k, some (.size k) ∈ ls → k ≤ cap.size := by
  have hall : (∃ q, Represents cap s q) ∧ Settled s ∧ ∀ k, some (.size k) ∈ ls → k ≤ cap.size := by
    refine h.invariant (fun ls s ↦ (∃ q, Represents cap s q) ∧ Settled s ∧
      ∀ k, some (.size k) ∈ ls → k ≤ cap.size) ?_ ?_
    · exact ⟨⟨[], 0, initial_aligned cap store⟩, initial_settled store, nofun⟩
    · rintro ls t l u ⟨⟨q, hq⟩, hset, hsize⟩ hstep
      obtain ⟨q', -, hq'⟩ := step_simulation t q l u hq hstep
      obtain ⟨head, hal⟩ := hq
      refine ⟨⟨q', hq'⟩, hset.step hal hstep, ?_⟩
      intro k hk
      rcases List.mem_append.mp hk with hk | hk
      · exact hsize k hk
      · obtain rfl := List.mem_singleton.mp hk
        cases hstep
        exact hal.count ▸ hal.bound
  obtain ⟨⟨q, head, hal⟩, hset, hsize⟩ := hall
  exact ⟨hal.exclusion hset, hsize⟩

/-- With one slot the two indices coincide while the producer is about to count
its element, and the consumer still has no slot. -/
theorem run_slot_exclusion_one :
    ∃ s : State ℕ, s.producer = .advanced 7 ∧ s.queue.nextWriteIndex = s.queue.nextReadIndex ∧
      s.readerSlot ⟨1, by decide, by decide⟩ = none ∧
      Exclusive ⟨1, by decide, by decide⟩ s := by
  have hrun : Run (Step ⟨1, by decide, by decide⟩) (State.initial fun _ ↦ 0) _ _ :=
    ((((Run.nil.snoc (Step.writeCheck (by decide))).snoc .writeLoad).snoc (.write 7)).snoc
      .publishLoad).snoc .publishStore
  exact ⟨_, rfl, rfl, rfl, (run_slot_exclusion _ _ hrun).1⟩

end LowLatency.LFQueue
