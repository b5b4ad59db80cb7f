import LowLatency.Library.Runs
import LowLatency.MemPool.FreeSearch

namespace LowLatency.MemPool

open Library.Runs Library.Words

variable {α : Type*} {cap : Capacity} (lay : Layout)

namespace Pool

def live (p : Pool α) (i : ℕ) : Option α := (p.store[i]?).bind ObjectBlock.object

def numLive (p : Pool α) : ℕ := p.store.countP fun b ↦ b.object.isSome

def SameBookkeeping (p p' : Pool α) : Prop :=
  p'.store = p.store ∧ p'.numFree = p.numFree ∧ p'.nextFreeIndex = p.nextFreeIndex

end Pool

/-- The allocator that the pool is meant to be: a partial map from slots to
objects, which hands out any slot that is not in the map. -/
inductive AllocatorStep (n : ℕ) (address : ℕ → ℕ) :
    (ℕ → Option α) → Op α × Result → (ℕ → Option α) → Prop
  | allocate {live : ℕ → Option α} {i : ℕ} (v : α) (hi : i < n) (hfree : live i = none) :
      AllocatorStep n address live (.allocate (some v), .object (address i))
        (Function.update live i (some v))
  | threw {live : ℕ → Option α} {i : ℕ} (hi : i < n) (hfree : live i = none) :
      AllocatorStep n address live (.allocate none, .threw) live
  | exhausted {live : ℕ → Option α} (outcome : Option α) (h : ∀ i < n, (live i).isSome) :
      AllocatorStep n address live (.allocate outcome, .nullptr) live
  | release {live : ℕ → Option α} {i : ℕ} (hi : i < n) (hlive : (live i).isSome) :
      AllocatorStep n address live (.deallocate (address i), .released true)
        (Function.update live i none)
  | reject {live : ℕ → Option α} {elem : ℕ} (h : ∀ i < n, address i = elem → live i = none) :
      AllocatorStep n address live (.deallocate elem, .released false) live

/-- The three pieces of bookkeeping agree with each other and with the objects. -/
structure Consistent (cap : Capacity) (p : Pool α) : Prop where
  length : p.store.length = cap.size
  flags : ∀ b ∈ p.store, b.isFree = b.object.isNone
  count : p.numFree = p.store.countP ObjectBlock.isFree
  cursor_lt : p.nextFreeIndex < cap.size
  cursor_free : 0 < p.numFree → freeAt p.store p.nextFreeIndex

theorem new_consistent (cap : Capacity) : Consistent cap (Pool.new cap : Pool α) where
  length := List.length_replicate
  flags b hb := by rw [List.eq_of_mem_replicate hb]; rfl
  count := by simp [Pool.new, List.countP_replicate]
  cursor_lt := cap.pos
  cursor_free _ := by simp [Pool.new, freeAt, cap.pos]

theorem address_injective (lay : Layout) : Function.Injective lay.address := by
  intro i j h
  exact Nat.eq_of_mul_eq_mul_right lay.stride_pos (Nat.add_left_cancel h)

theorem address_ne_zero (lay : Layout) (i : ℕ) : lay.address i ≠ 0 := by
  have hbase := lay.base_pos
  unfold Layout.address
  omega

namespace Consistent

variable {p : Pool α} (h : Consistent cap p)
include h

theorem free_iff {i : ℕ} (hi : i < cap.size) : freeAt p.store i ↔ p.live i = none := by
  have hlt : i < p.store.length := h.length ▸ hi
  have hflag := h.flags _ (List.getElem_mem hlt)
  simp only [freeAt, Pool.live, List.getElem?_eq_getElem hlt, Option.any_some, Option.bind_some,
    hflag, Option.isNone_iff_eq_none]

theorem occupied {i : ℕ} (hi : (p.live i).isSome) :
    i < cap.size ∧ freeAt p.store i = false := by
  have hlt : i < cap.size := by
    by_contra hge
    rw [Pool.live, List.getElem?_eq_none (h.length ▸ Nat.not_lt.mp hge)] at hi
    cases hi
  refine ⟨hlt, ?_⟩
  rw [← Bool.not_eq_true, h.free_iff hlt]
  intro hnone
  rw [hnone] at hi
  cases hi

theorem numLive_add_numFree : p.numLive + p.numFree = cap.size := by
  have hlive : p.numLive = p.store.countP fun b ↦ !b.isFree := by
    apply List.countP_congr
    intro b hb
    simp [h.flags b hb]
  have hsum := List.length_eq_countP_add_countP ObjectBlock.isFree (l := p.store)
  rw [hlive, h.count, ← h.length, hsum, Nat.add_comm]
  simp

theorem numFree_eq_zero_iff : p.numFree = 0 ↔ ∀ i < cap.size, (p.live i).isSome := by
  rw [h.count, List.countP_eq_zero]
  constructor
  · intro hall i hi
    have hlt : i < p.store.length := h.length ▸ hi
    have hne := hall _ (List.getElem_mem hlt)
    rw [Option.isSome_iff_ne_none]
    intro hnone
    have hfree := (h.free_iff hi).mpr hnone
    rw [freeAt_of_getElem? (List.getElem?_eq_getElem hlt)] at hfree
    exact hne hfree
  · intro hall b hb hfree
    obtain ⟨i, hi, rfl⟩ := List.getElem_of_mem hb
    have hsome := hall i (h.length ▸ hi)
    rw [(h.free_iff (h.length ▸ hi)).mp
      ((freeAt_of_getElem? (List.getElem?_eq_getElem hi)).trans hfree)] at hsome
    simp at hsome

end Consistent

theorem live_set {p p' : Pool α} {i : ℕ} {b : ObjectBlock α} (hi : i < p.store.length)
    (hstore : p'.store = p.store.set i b) : p'.live = Function.update p.live i b.object := by
  funext j
  by_cases hj : j = i
  · subst hj
    simp [Pool.live, hstore, hi]
  · rw [Function.update_of_ne hj]
    simp [Pool.live, hstore, List.getElem?_set_ne (Ne.symm hj)]

theorem flags_set {store : List (ObjectBlock α)} {i : ℕ} {b : ObjectBlock α}
    (hflags : ∀ b ∈ store, b.isFree = b.object.isNone) (hb : b.isFree = b.object.isNone) :
    ∀ c ∈ store.set i b, c.isFree = c.object.isNone := by
  intro c hc
  rcases List.mem_or_eq_of_mem_set hc with hc | rfl
  · exact hflags c hc
  · exact hb

theorem countP_fill {store : List (ObjectBlock α)} {i : ℕ} (v : α) (hi : freeAt store i) :
    (store.set i ⟨some v, false⟩).countP ObjectBlock.isFree + 1 =
      store.countP ObjectBlock.isFree := by
  have hlt := freeAt_lt hi
  have hflag : store[i].isFree := by
    rwa [freeAt_of_getElem? (List.getElem?_eq_getElem hlt)] at hi
  have hpos : 0 < store.countP ObjectBlock.isFree :=
    List.countP_pos_iff.mpr ⟨_, List.getElem_mem hlt, hflag⟩
  rw [List.countP_set hlt, if_pos hflag]
  simp only [Bool.false_eq_true, if_false]
  omega

theorem countP_empty {store : List (ObjectBlock α)} {i : ℕ} (hlt : i < store.length)
    (hi : freeAt store i = false) :
    (store.set i ⟨none, true⟩).countP ObjectBlock.isFree =
      store.countP ObjectBlock.isFree + 1 := by
  have hflag : store[i].isFree = false := by
    rwa [freeAt_of_getElem? (List.getElem?_eq_getElem hlt)] at hi
  rw [List.countP_set hlt, hflag]
  simp

theorem commit_spec {p : Pool α} (h : Consistent cap p) {slot : ℕ}
    (hslot : freeAt p.store slot) (v : α) :
    ∃ p', p.commit lay slot v = (.object (lay.address slot), p') ∧ Consistent cap p' ∧
      p'.store = p.store.set slot ⟨some v, false⟩ ∧
      p'.lifetimes = p.lifetimes ++ [.constructed slot] := by
  have hfill := countP_fill v hslot
  have hcount := h.count
  have hfits := cap.fits
  have hsub : sizeSub p.numFree 1 =
      (p.store.set slot ⟨some v, false⟩).countP ObjectBlock.isFree := by
    rw [sizeSub_eq (by omega)]
    omega
  have hlen : (p.store.set slot ⟨some v, false⟩).length = cap.size := by
    rw [List.length_set, h.length]
  have hflags := flags_set (i := slot) h.flags (b := ⟨some v, false⟩) rfl
  have hcursor := h.cursor_lt
  unfold Pool.commit
  -- From here on only the store, the count and the cursor of the new pool matter.
  generalize hp₁ : ({ p.record (.constructed slot) with
    store := p.store.set slot ⟨some v, false⟩, numFree := sizeSub p.numFree 1 } : Pool α) = p₁
  dsimp only
  have hstore : p₁.store = p.store.set slot ⟨some v, false⟩ := by rw [← hp₁]
  have hnum : p₁.numFree = p₁.store.countP ObjectBlock.isFree := by rw [hstore, ← hsub, ← hp₁]
  have hnext : p₁.nextFreeIndex < cap.size := by rwa [← hp₁]
  have hlives : p₁.lifetimes = p.lifetimes ++ [.constructed slot] := by rw [← hp₁]; rfl
  rw [← hstore] at hlen hflags
  by_cases hpos : 0 < p₁.numFree
  · obtain ⟨b, hb, hbfree⟩ := List.countP_pos_iff.mp (hnum ▸ hpos)
    obtain ⟨i, hi, rfl⟩ := List.getElem_of_mem hb
    have hifree : freeAt p₁.store i :=
      (freeAt_of_getElem? (List.getElem?_eq_getElem hi)).trans hbfree
    obtain ⟨j, hj, hjfree⟩ := updateNextFreeIndex_found (hlen ▸ cap.fits) (hlen ▸ hnext) hifree
    have hjlt := freeAt_lt hjfree
    rw [if_pos hpos, hj]
    exact ⟨_, rfl, ⟨hlen, hflags, hnum, hlen ▸ hjlt, fun _ ↦ hjfree⟩, hstore, hlives⟩
  · rw [if_neg hpos]
    exact ⟨p₁, rfl, ⟨hlen, hflags, hnum, hnext, fun hp ↦ absurd hp hpos⟩, hstore, hlives⟩

theorem Consistent.record {p : Pool α} (h : Consistent cap p) (e : Lifetime) :
    Consistent cap (p.record e) :=
  ⟨h.length, h.flags, h.count, h.cursor_lt, h.cursor_free⟩

theorem allocate_eq {p : Pool α} (hpos : 0 < p.numFree) (hfree : freeAt p.store p.nextFreeIndex)
    (construct : Pool α → Construction α × Pool α) :
    p.allocate lay construct =
      match construct (p.record (.started p.nextFreeIndex)) with
      | (.aborted, q) => (.assertFailed, q)
      | (.threw, q) => (.threw, q.record (.abandoned p.nextFreeIndex))
      | (.completed v, q) => q.commit lay p.nextFreeIndex v := by
  have hget := List.getElem?_eq_getElem (freeAt_lt hfree)
  rw [freeAt_of_getElem? hget] at hfree
  unfold Pool.allocate
  rw [if_neg (by omega), hget]
  exact if_pos hfree

theorem allocate_cases {p : Pool α} (h : Consistent cap p) (outcome : Option α) :
    (p.numFree = 0 ∧ p.call lay (.allocate outcome) = (.nullptr, p)) ∨
    (0 < p.numFree ∧ outcome = none ∧ ∃ p', p.call lay (.allocate outcome) = (.threw, p') ∧
      Consistent cap p' ∧ p.SameBookkeeping p' ∧ p'.lifetimes = p.lifetimes ++
        [.started p.nextFreeIndex, .abandoned p.nextFreeIndex]) ∨
    (0 < p.numFree ∧ ∃ v, outcome = some v ∧ ∃ p',
      p.call lay (.allocate outcome) = (.object (lay.address p.nextFreeIndex), p') ∧
      Consistent cap p' ∧ p'.store = p.store.set p.nextFreeIndex ⟨some v, false⟩ ∧
      p'.lifetimes = p.lifetimes ++
        [.started p.nextFreeIndex, .constructed p.nextFreeIndex]) := by
  unfold Pool.call
  by_cases hzero : p.numFree = 0
  · exact .inl ⟨hzero, if_pos hzero⟩
  · have hpos : 0 < p.numFree := Nat.pos_of_ne_zero hzero
    have hfree := h.cursor_free hpos
    dsimp only
    rw [allocate_eq lay hpos hfree]
    cases outcome with
    | none =>
      exact .inr (.inl ⟨hpos, rfl, _, rfl, (h.record _).record _, ⟨rfl, rfl, rfl⟩,
        List.append_assoc ..⟩)
    | some v =>
      obtain ⟨p', hcall, hp', hstore, hlives⟩ := commit_spec lay
        (h.record (.started p.nextFreeIndex)) hfree v
      exact .inr (.inr ⟨hpos, v, rfl, p', hcall, hp', hstore,
        hlives.trans (List.append_assoc ..)⟩)

theorem Consistent.release {p : Pool α} (h : Consistent cap p) {i : ℕ} (hi : i < cap.size)
    (hfree : freeAt p.store i = false) : Consistent cap (p.release i) := by
  have hlt : i < p.store.length := h.length ▸ hi
  have hempty := countP_empty hlt hfree
  have hle := List.countP_le_length (p := ObjectBlock.isFree) (l := p.store.set i ⟨none, true⟩)
  have hcount := h.count
  have hlen := h.length
  have hfits := cap.fits
  rw [List.length_set] at hle
  exact {
    length := List.length_set.trans h.length
    flags := flags_set h.flags rfl
    count := by
      change sizeAdd p.numFree 1 = (p.store.set i ⟨none, true⟩).countP ObjectBlock.isFree
      rw [sizeAdd_eq (by omega), hempty, hcount]
    cursor_lt := hi
    cursor_free := fun _ ↦ by simp [freeAt, Pool.release, hlt] }

theorem findSlot_address {p : Pool α} {i : ℕ} (hi : i < p.store.length) :
    p.findSlot lay (lay.address i) = some i := by
  rw [Pool.findSlot, List.find?_range_eq_some]
  refine ⟨by simp, List.mem_range.mpr hi, ?_⟩
  intro j hj
  simpa using fun he ↦ (Nat.ne_of_lt hj) (address_injective lay he)

theorem findSlot_eq_none {p : Pool α} {elem : ℕ}
    (he : ∀ i < p.store.length, lay.address i ≠ elem) : p.findSlot lay elem = none := by
  simpa [Pool.findSlot] using he

theorem deallocate_eq {p : Pool α} {i : ℕ} (hi : i < p.store.length)
    (hfree : freeAt p.store i = false) (destruct : Pool α → Pool α) :
    p.deallocate lay destruct (lay.address i) =
      (.released true, (destruct (p.record (.destroyed i))).release i) := by
  have hget := List.getElem?_eq_getElem hi
  rw [freeAt_of_getElem? hget] at hfree
  unfold Pool.deallocate
  rw [if_neg (address_ne_zero lay i), findSlot_address lay hi]
  dsimp only
  rw [hget]
  dsimp only
  rw [if_neg (by simp [hfree])]

theorem deallocate_free {p : Pool α} {i : ℕ} (hfree : freeAt p.store i)
    (destruct : Pool α → Pool α) :
    p.deallocate lay destruct (lay.address i) = (.released false, p) := by
  have hget := List.getElem?_eq_getElem (freeAt_lt hfree)
  have hslot := findSlot_address lay (freeAt_lt hfree)
  rw [freeAt_of_getElem? hget] at hfree
  unfold Pool.deallocate
  rw [if_neg (address_ne_zero lay i), hslot]
  dsimp only
  rw [hget]
  dsimp only
  rw [if_pos hfree]

theorem deallocate_cases {p : Pool α} (h : Consistent cap p) (elem : ℕ) :
    ((∀ i < cap.size, lay.address i = elem → p.live i = none) ∧
      p.call lay (.deallocate elem) = (.released false, p)) ∨
    (∃ i, i < cap.size ∧ elem = lay.address i ∧ (p.live i).isSome ∧ ∃ p',
      p.call lay (.deallocate elem) = (.released true, p') ∧
      Consistent cap p' ∧ p'.store = p.store.set i ⟨none, true⟩ ∧
      p'.lifetimes = p.lifetimes ++ [.destroyed i]) := by
  unfold Pool.call
  by_cases hslot : ∃ i < cap.size, lay.address i = elem
  · obtain ⟨i, hi, rfl⟩ := hslot
    cases hfree : freeAt p.store i with
    | true =>
      refine .inl ⟨?_, deallocate_free lay hfree _⟩
      intro j _ he
      rw [address_injective lay he]
      exact (h.free_iff hi).mp hfree
    | false =>
      have hsome : (p.live i).isSome := by
        rw [Option.isSome_iff_ne_none]
        intro hnone
        simp [(h.free_iff hi).mpr hnone] at hfree
      exact .inr ⟨i, hi, rfl, hsome, _, deallocate_eq lay (h.length ▸ hi) hfree _,
        (h.record _).release hi hfree, rfl, rfl⟩
  · have hnone : ∀ i < p.store.length, lay.address i ≠ elem :=
      fun i hi he ↦ hslot ⟨i, h.length ▸ hi, he⟩
    refine .inl ⟨fun i hi he ↦ absurd he (hnone i (h.length ▸ hi)), ?_⟩
    simp only [Pool.deallocate, findSlot_eq_none lay hnone, ite_self]

theorem call_refines {p : Pool α} (h : Consistent cap p) {l : Op α × Result} {p' : Pool α}
    (hs : CallStep lay p l p') :
    Consistent cap p' ∧ AllocatorStep cap.size lay.address p.live l p'.live := by
  obtain ⟨op, r⟩ := l
  cases op with
  | allocate outcome =>
    rcases allocate_cases lay h outcome with
      ⟨hzero, hcall⟩ | ⟨hpos, rfl, q, hcall, hq, hsame, -⟩ |
      ⟨hpos, v, rfl, q, hcall, hq, hstore, -⟩
    · obtain ⟨rfl, rfl⟩ := Prod.ext_iff.mp (hcall.symm.trans hs)
      exact ⟨h, .exhausted outcome (h.numFree_eq_zero_iff.mp hzero)⟩
    · obtain ⟨rfl, rfl⟩ := Prod.ext_iff.mp (hcall.symm.trans hs)
      refine ⟨hq, ?_⟩
      rw [show q.live = p.live from funext fun i ↦ by rw [Pool.live, Pool.live, hsame.1]]
      exact .threw h.cursor_lt ((h.free_iff h.cursor_lt).mp (h.cursor_free hpos))
    · obtain ⟨rfl, rfl⟩ := Prod.ext_iff.mp (hcall.symm.trans hs)
      refine ⟨hq, ?_⟩
      rw [live_set (h.length ▸ h.cursor_lt) hstore]
      exact .allocate v h.cursor_lt ((h.free_iff h.cursor_lt).mp (h.cursor_free hpos))
  | deallocate elem =>
    rcases deallocate_cases lay h elem with
      ⟨hnone, hcall⟩ | ⟨i, hi, rfl, hsome, q, hcall, hq, hstore, -⟩
    · obtain ⟨rfl, rfl⟩ := Prod.ext_iff.mp (hcall.symm.trans hs)
      exact ⟨h, .reject hnone⟩
    · obtain ⟨rfl, rfl⟩ := Prod.ext_iff.mp (hcall.symm.trans hs)
      refine ⟨hq, ?_⟩
      rw [live_set (h.length ▸ hi) hstore]
      exact .release hi hsome

theorem Consistent.call {p : Pool α} (h : Consistent cap p) (op : Op α) :
    Consistent cap (p.call lay op).2 :=
  (call_refines lay h (l := (op, (p.call lay op).1)) rfl).1

inductive Effect (p p' : Pool α) : Prop
  | same : p' = p → Effect p p'
  | abandoned {slot : ℕ} : p.live slot = none →
      p'.lifetimes = p.lifetimes ++ [.started slot, .abandoned slot] → p'.live = p.live →
      Effect p p'
  | constructed {slot : ℕ} {v : α} : p.live slot = none →
      p'.lifetimes = p.lifetimes ++ [.started slot, .constructed slot] →
      p'.live = Function.update p.live slot (some v) → Effect p p'
  | destroyed {slot : ℕ} : (p.live slot).isSome →
      p'.lifetimes = p.lifetimes ++ [.destroyed slot] →
      p'.live = Function.update p.live slot none → Effect p p'

theorem call_effect {p : Pool α} (h : Consistent cap p) (op : Op α) :
    Effect p (p.call lay op).2 := by
  cases op with
  | allocate outcome =>
    rcases allocate_cases lay h outcome with ⟨-, hcall⟩ |
      ⟨hpos, -, q, hcall, -, hsame, hlives⟩ | ⟨hpos, v, -, q, hcall, -, hstore, hlives⟩
    · rw [hcall]
      exact .same rfl
    · rw [hcall]
      refine .abandoned ((h.free_iff h.cursor_lt).mp (h.cursor_free hpos)) hlives (funext ?_)
      intro i
      rw [Pool.live, Pool.live, hsame.1]
    · rw [hcall]
      exact .constructed ((h.free_iff h.cursor_lt).mp (h.cursor_free hpos)) hlives
        (live_set (h.length ▸ h.cursor_lt) hstore)
  | deallocate elem =>
    rcases deallocate_cases lay h elem with ⟨-, hcall⟩ |
      ⟨i, hi, -, hsome, q, hcall, -, hstore, hlives⟩
    · rw [hcall]
      exact .same rfl
    · rw [hcall]
      exact .destroyed hsome hlives (live_set (h.length ▸ hi) hstore)

def CallCorrect (cap : Capacity) (lay : Layout) (p : Pool α) : Op α → Result × Pool α → Prop
  | .allocate outcome, (r, p') =>
    (r = .nullptr ↔ p.numLive = cap.size) ∧
    (r = .nullptr ∧ p.SameBookkeeping p' ∨
      r = .threw ∧ outcome = none ∧ p.SameBookkeeping p' ∨
      ∃ i v, i < cap.size ∧ p.live i = none ∧ outcome = some v ∧ r = .object (lay.address i) ∧
        p'.live i = some v ∧ ∀ j, j ≠ i → p'.store[j]? = p.store[j]?)
  | .deallocate elem, (r, p') =>
    (r = .released true ↔ ∃ i < cap.size, elem = lay.address i ∧ (p.live i).isSome) ∧
    (r = .released false ∧ p.SameBookkeeping p' ∨
      ∃ i, i < cap.size ∧ elem = lay.address i ∧ r = .released true ∧
        freeAt p'.store i ∧ p'.live i = none ∧ ∀ j, j ≠ i → p'.store[j]? = p.store[j]?)

theorem call_correct {p : Pool α} (h : Consistent cap p) (op : Op α) :
    CallCorrect cap lay p op (p.call lay op) := by
  have hsum := h.numLive_add_numFree
  cases op with
  | allocate outcome =>
    rcases allocate_cases lay h outcome with
      ⟨hzero, hcall⟩ | ⟨hpos, rfl, q, hcall, -, hsame, -⟩ |
      ⟨hpos, v, rfl, q, hcall, -, hstore, -⟩
    · rw [hcall]
      exact ⟨⟨fun _ ↦ by omega, fun _ ↦ rfl⟩, .inl ⟨rfl, rfl, rfl, rfl⟩⟩
    · rw [hcall]
      exact ⟨⟨nofun, fun _ ↦ by omega⟩, .inr (.inl ⟨rfl, rfl, hsame⟩)⟩
    · rw [hcall]
      refine ⟨⟨nofun, fun _ ↦ by omega⟩, .inr (.inr ⟨p.nextFreeIndex, v, h.cursor_lt,
        (h.free_iff h.cursor_lt).mp (h.cursor_free hpos), rfl, rfl, ?_, fun j hj ↦ ?_⟩)⟩
      · rw [live_set (h.length ▸ h.cursor_lt) hstore, Function.update_self]
      · rw [hstore, List.getElem?_set_ne (Ne.symm hj)]
  | deallocate elem =>
    rcases deallocate_cases lay h elem with
      ⟨hnone, hcall⟩ | ⟨i, hi, rfl, hsome, q, hcall, -, hstore, -⟩
    · rw [hcall]
      refine ⟨⟨nofun, ?_⟩, .inl ⟨rfl, rfl, rfl, rfl⟩⟩
      rintro ⟨i, hi, rfl, hsome⟩
      rw [hnone i hi rfl] at hsome
      exact absurd hsome (by simp)
    · rw [hcall]
      refine ⟨⟨fun _ ↦ ⟨i, hi, rfl, hsome⟩, fun _ ↦ rfl⟩,
        .inr ⟨i, hi, rfl, rfl, ?_, ?_, fun j hj ↦ ?_⟩⟩
      · have hlt : i < p.store.length := h.length ▸ hi
        simp [freeAt, hstore, hlt]
      · rw [live_set (h.length ▸ hi) hstore, Function.update_self]
      · rw [hstore, List.getElem?_set_ne (Ne.symm hj)]

theorem new_live (cap : Capacity) : (Pool.new cap : Pool α).live = fun _ ↦ none := by
  funext i
  by_cases hi : i < cap.size <;> simp [Pool.live, Pool.new, hi]

/-- Every history of calls, whatever their pointers and constructors, is a
history of the abstract allocator, keeps the bookkeeping consistent, and every
further call answers correctly without reaching an assert. -/
theorem run_refines_allocator (cap : Capacity) (lay : Layout) {ls : List (Op α × Result)}
    {p : Pool α} (h : Run (CallStep lay) (Pool.new cap) ls p) :
    Run (AllocatorStep cap.size lay.address) (fun _ ↦ none) ls p.live ∧
      p.numFree = p.store.countP ObjectBlock.isFree ∧ p.nextFreeIndex < cap.size ∧
      (0 < p.numFree → freeAt p.store p.nextFreeIndex) ∧
      ∀ op, (p.call lay op).1 ≠ .assertFailed ∧ CallCorrect cap lay p op (p.call lay op) := by
  obtain ⟨hp, hrun⟩ := h.refine (Consistent cap) Pool.live (new_consistent cap)
    fun _ _ _ hq hs ↦ call_refines lay hq hs
  rw [new_live] at hrun
  refine ⟨hrun, hp.count, hp.cursor_lt, hp.cursor_free, fun op ↦ ⟨?_, call_correct lay hp op⟩⟩
  have hstep := (call_refines lay hp (l := (op, (p.call lay op).1)) rfl).2
  intro hassert
  rw [hassert] at hstep
  cases hstep

/-- Two slots: a constructor throws, the pool is filled, a further object gets no
slot, and of five pointers only the one to a live object is taken back. -/
theorem run_refines_allocator_two :
    let lay : Layout := ⟨64, 16, by decide, by decide⟩
    let ls : List (Op ℕ × Result) :=
      [(.allocate none, .threw), (.allocate (some 101), .object 64),
        (.allocate (some 102), .object 80), (.allocate (some 103), .nullptr),
        (.deallocate 0, .released false), (.deallocate 1024, .released false),
        (.deallocate 72, .released false), (.deallocate 64, .released true),
        (.deallocate 64, .released false), (.allocate (some 104), .object 64)]
    ∃ p, Run (CallStep lay) (Pool.new ⟨2, by decide, by decide⟩) ls p ∧
      p.live 0 = some 104 ∧ p.live 1 = some 102 ∧
      Run (AllocatorStep 2 lay.address) (fun _ ↦ none) ls p.live ∧
      CallCorrect ⟨2, by decide, by decide⟩ lay p (.deallocate 80)
        (p.call lay (.deallocate 80)) := by
  intro lay ls
  have hrun : Run (CallStep lay) (Pool.new ⟨2, by decide, by decide⟩) ls _ :=
    .cons rfl (.cons rfl (.cons rfl (.cons rfl (.cons rfl (.cons rfl (.cons rfl (.cons rfl
      (.cons rfl (.one rfl)))))))))
  obtain ⟨hrefines, -, -, -, hcalls⟩ := run_refines_allocator _ _ hrun
  exact ⟨_, hrun, rfl, rfl, hrefines, (hcalls _).2⟩

end LowLatency.MemPool
