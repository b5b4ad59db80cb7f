import LowLatency.Library.Forests
import LowLatency.MemPool.Refinement
import Mathlib.Data.Nat.Find

namespace LowLatency.MemPool

open Library.Forests Library.Runs Library.Words

variable {α : Type*} {cap : Capacity}

/-- What `~T()` does to the pool when the object owns a forest of others: it
calls `deallocate()` for each root, whose destructor does the same. -/
def destruct (lay : Layout) : Forest ℕ → Pool α → Pool α
  | .nil, p => p
  | .cons slot under rest, p =>
    destruct lay rest (p.deallocate lay (destruct lay under) (lay.address slot)).2

def Pool.deallocateRoots (lay : Layout) (p : Pool α) (ts : List (ℕ × Forest ℕ)) : Pool α :=
  ts.foldl (fun p t ↦ (p.deallocate lay (destruct lay t.2) (lay.address t.1)).2) p

def Pool.destructions (p : Pool α) (i : ℕ) : ℕ := p.lifetimes.count (.destroyed i)

structure Owns (f : Forest ℕ) (p : Pool α) : Prop where
  distinct : f.labels.Nodup
  live : ∀ i, i ∈ f.labels ↔ (p.live i).isSome

/-- The pools that calls from outside lead to. Who owns whom may have changed
from one call to the next. -/
inductive Reached (cap : Capacity) (lay : Layout) : Pool α → Prop
  | new : Reached cap lay (Pool.new cap)
  | call {p : Pool α} (op : Op α) : Reached cap lay p → Reached cap lay (p.call lay op).2
  | deallocate {p : Pool α} {f : Forest ℕ} {t : ℕ × Forest ℕ} : Reached cap lay p → Owns f p →
      t ∈ f.trees →
      Reached cap lay (p.deallocate lay (destruct lay t.2) (lay.address t.1)).2

inductive Destructs : Forest ℕ → Pool α → Pool α → Prop
  | nil {p : Pool α} : Destructs .nil p p
  | skip {p q : Pool α} {slot : ℕ} {under rest : Forest ℕ} :
      (slot < p.store.length → freeAt p.store slot) → Destructs rest p q →
      Destructs (.cons slot under rest) p q
  | destroy {p q r : Pool α} {slot : ℕ} {under rest : Forest ℕ} :
      slot < p.store.length → freeAt p.store slot = false →
      Destructs under (p.record (.destroyed slot)) q → Destructs rest (q.release slot) r →
      Destructs (.cons slot under rest) p r

theorem destruct_destructs (lay : Layout) (f : Forest ℕ) (p : Pool α) :
    Destructs f p (destruct lay f p) := by
  induction f generalizing p with
  | nil => exact .nil
  | cons slot under rest ihunder ihrest =>
    unfold destruct
    by_cases hlt : slot < p.store.length
    · cases hfree : freeAt p.store slot with
      | true =>
        rw [deallocate_free lay hfree]
        exact .skip (fun _ ↦ hfree) (ihrest p)
      | false =>
        rw [deallocate_eq lay hlt hfree]
        exact .destroy hlt hfree (ihunder _) (ihrest _)
    · have hnone : ∀ i < p.store.length, lay.address i ≠ lay.address slot := by
        intro i hi heq
        exact hlt (address_injective lay heq ▸ hi)
      have hcall : (p.deallocate lay (destruct lay under) (lay.address slot)).2 = p := by
        simp only [Pool.deallocate, findSlot_eq_none lay hnone, ite_self]
      rw [hcall]
      exact .skip (fun h ↦ absurd h hlt) (ihrest p)

theorem deallocate_destructs (lay : Layout) (t : ℕ × Forest ℕ) (p : Pool α) :
    Destructs (Forest.tree t) p (p.deallocate lay (destruct lay t.2) (lay.address t.1)).2 :=
  destruct_destructs lay (Forest.tree t) p

section Bookkeeping

variable {p : Pool α}

theorem destructions_record (slot i : ℕ) : (p.record (.destroyed slot)).destructions i =
    p.destructions i + if i = slot then 1 else 0 := by
  unfold Pool.destructions Pool.record
  rw [List.count_append, List.count_singleton]
  simp only [beq_iff_eq, Lifetime.destroyed.injEq, eq_comm (a := slot)]

theorem length_release (slot : ℕ) : (p.release slot).store.length = p.store.length :=
  List.length_set

theorem freeAt_release {slot : ℕ} (hlt : slot < p.store.length) (i : ℕ) :
    freeAt (p.release slot).store i = (decide (i = slot) || freeAt p.store i) := by
  unfold Pool.release freeAt
  rcases eq_or_ne i slot with rfl | hne
  · simp [hlt]
  · simp [List.getElem?_set_ne hne.symm, hne]

end Bookkeeping

/-- Slots become free only through destructions, and what is free is left alone. -/
structure Progress (p q : Pool α) : Prop where
  length : q.store.length = p.store.length
  stays : ∀ i, freeAt p.store i → freeAt q.store i
  spared : ∀ i, freeAt p.store i → q.destructions i = p.destructions i
  grows : ∀ i, p.destructions i ≤ q.destructions i
  freed : ∀ i, freeAt p.store i = false → freeAt q.store i → p.destructions i < q.destructions i

namespace Progress

variable {p q r : Pool α}

theorem refl (p : Pool α) : Progress p p where
  length := rfl
  stays _ h := h
  spared _ _ := rfl
  grows _ := Nat.le_refl _
  freed _ h h' := by
    rw [h] at h'
    cases h'

theorem trans (h : Progress p q) (h' : Progress q r) : Progress p r where
  length := h'.length.trans h.length
  stays i hi := h'.stays i (h.stays i hi)
  spared i hi := (h'.spared i (h.stays i hi)).trans (h.spared i hi)
  grows i := (h.grows i).trans (h'.grows i)
  freed i hp hr := by
    cases hq : freeAt q.store i with
    | true => exact (h.freed i hp hq).trans_le (h'.grows i)
    | false => exact (h.grows i).trans_lt (h'.freed i hq hr)

theorem record {slot : ℕ} (hfree : freeAt p.store slot = false) :
    Progress p (p.record (.destroyed slot)) where
  length := rfl
  stays _ h := h
  spared i hi := by
    have hne : i ≠ slot := by
      intro heq
      rw [heq, hfree] at hi
      cases hi
    rw [destructions_record, if_neg hne, Nat.add_zero]
  grows i := by
    rw [destructions_record]
    exact Nat.le_add_right _ _
  freed i h h' := by
    rw [show freeAt (p.record (.destroyed slot)).store i = freeAt p.store i from rfl, h] at h'
    cases h'

theorem release (h : Progress p q) {slot : ℕ} (hlt : slot < p.store.length)
    (hslot : p.destructions slot < q.destructions slot) : Progress p (q.release slot) where
  length := (length_release slot).trans h.length
  stays i hi := by
    rw [freeAt_release (h.length ▸ hlt), h.stays i hi, Bool.or_true]
  spared := h.spared
  grows := h.grows
  freed i hp hq := by
    rw [freeAt_release (h.length ▸ hlt)] at hq
    rcases eq_or_ne i slot with rfl | hne
    · exact hslot
    · exact h.freed i hp (by simpa [hne] using hq)

theorem destroyed {slot : ℕ} (h : Progress (p.record (.destroyed slot)) q) :
    p.destructions slot < q.destructions slot := by
  have hle := h.grows slot
  rw [destructions_record, if_pos rfl] at hle
  exact hle

end Progress

/-- All objects of the forest are where the forest says. -/
def Occupied (f : Forest ℕ) (p : Pool α) : Prop :=
  ∀ i ∈ f.labels, i < p.store.length ∧ freeAt p.store i = false

theorem Occupied.cons {slot : ℕ} {under rest : Forest ℕ} {p : Pool α}
    (h : Occupied (.cons slot under rest) p) :
    (slot < p.store.length ∧ freeAt p.store slot = false) ∧ Occupied under p ∧ Occupied rest p := by
  refine ⟨h slot (Forest.mem_labels_cons.mpr (.inl rfl)), ?_, ?_⟩
  · intro i hi
    exact h i (Forest.mem_labels_cons.mpr (.inr (.inl hi)))
  · intro i hi
    exact h i (Forest.mem_labels_cons.mpr (.inr (.inr hi)))

namespace Destructs

variable {f : Forest ℕ} {p q : Pool α}

theorem progress (h : Destructs f p q) : Progress p q := by
  induction h with
  | nil => exact .refl _
  | skip _ _ ih => exact ih
  | destroy hlt hfree _ _ ihunder ihrest =>
    have hdown := (Progress.record hfree).trans ihunder
    exact (hdown.release hlt ihunder.destroyed).trans ihrest

theorem elsewhere (h : Destructs f p q) {i : ℕ} (hi : i ∉ f.labels) :
    freeAt q.store i = freeAt p.store i ∧ q.destructions i = p.destructions i := by
  induction h with
  | nil => exact ⟨rfl, rfl⟩
  | skip _ _ ih =>
    rw [Forest.mem_labels_cons, not_or, not_or] at hi
    exact ih hi.2.2
  | @destroy p q r slot under rest hlt _ hunder _ ihunder ihrest =>
    rw [Forest.mem_labels_cons, not_or, not_or] at hi
    obtain ⟨hne, hunder', hrest⟩ := hi
    obtain ⟨hflag, hcount⟩ := ihunder hunder'
    obtain ⟨hflag', hcount'⟩ := ihrest hrest
    have hlen : slot < q.store.length := hunder.progress.length ▸ hlt
    rw [destructions_record, if_neg hne, Nat.add_zero] at hcount
    rw [freeAt_release hlen, decide_eq_false hne, Bool.false_or] at hflag'
    exact ⟨hflag'.trans hflag, hcount'.trans hcount⟩

theorem consistent (h : Destructs f p q) (hf : f.labels.Nodup) (hp : Consistent cap p) :
    Consistent cap q := by
  induction h with
  | nil => exact hp
  | skip _ _ ih => exact ih (Forest.nodup_cons hf).2.2.1 hp
  | @destroy p q r slot under rest hlt hfree hunder _ ihunder ihrest =>
    obtain ⟨⟨hslot, -⟩, hunder', hrest, -⟩ := Forest.nodup_cons hf
    have hq := ihunder hunder' (hp.record _)
    have hqfree : freeAt q.store slot = false := (hunder.elsewhere hslot).1.trans hfree
    exact ihrest hrest (hq.release (hp.length ▸ hlt) hqfree)

theorem roots_free (h : Destructs f p q) {t : ℕ × Forest ℕ} (ht : t ∈ f.trees)
    (hlt : t.1 < p.store.length) : freeAt q.store t.1 := by
  induction h with
  | nil => cases ht
  | skip hskip hrest ih =>
    rcases List.mem_cons.mp ht with rfl | ht
    · exact hrest.progress.stays _ (hskip hlt)
    · exact ih ht hlt
  | @destroy p q r slot under rest hslot hfree hunder hrest _ ih =>
    have hlen : slot < q.store.length := hunder.progress.length ▸ hslot
    rcases List.mem_cons.mp ht with rfl | ht
    · refine hrest.progress.stays _ ?_
      rw [freeAt_release hlen, decide_eq_true rfl, Bool.true_or]
    · refine ih ht ?_
      rw [length_release, hunder.progress.length]
      exact hlt

theorem occupied (h : Destructs f p q) (hf : f.labels.Nodup) (hocc : Occupied f p) {i : ℕ}
    (hi : i ∈ f.labels) : freeAt q.store i ∧ q.destructions i = p.destructions i + 1 := by
  induction h generalizing i with
  | nil => cases hi
  | skip hskip _ _ =>
    obtain ⟨⟨hlt, hfree⟩, -, -⟩ := hocc.cons
    rw [hskip hlt] at hfree
    cases hfree
  | @destroy p q r slot under rest hlt hfree hunder hrest ihunder ihrest =>
    obtain ⟨⟨hnotunder, hnotrest⟩, hf', hf'', hdisjoint⟩ := Forest.nodup_cons hf
    obtain ⟨-, hoccunder, hoccrest⟩ := hocc.cons
    have hlen : slot < q.store.length := hunder.progress.length ▸ hlt
    have hqunder : ∀ i ∈ under.labels,
        freeAt q.store i ∧ q.destructions i = p.destructions i + 1 := by
      intro i hi
      have hne : i ≠ slot := fun heq ↦ hnotunder (heq ▸ hi)
      have hgone := ihunder hf' hoccunder hi
      rwa [destructions_record, if_neg hne, Nat.add_zero] at hgone
    have hqrest : ∀ i ∈ rest.labels, freeAt (q.release slot).store i = false ∧
        (q.release slot).destructions i = p.destructions i := by
      intro i hi
      have hne : i ≠ slot := fun heq ↦ hnotrest (heq ▸ hi)
      obtain ⟨hflag, hcount⟩ := hunder.elsewhere fun hi' ↦ hdisjoint i hi' hi
      rw [destructions_record, if_neg hne, Nat.add_zero] at hcount
      refine ⟨?_, hcount⟩
      rw [freeAt_release hlen, decide_eq_false hne, Bool.false_or, hflag]
      exact (hoccrest i hi).2
    rcases Forest.mem_labels_cons.mp hi with rfl | hi | hi
    · obtain ⟨hflag, hcount⟩ := hrest.elsewhere hnotrest
      have hcount' := (hunder.elsewhere hnotunder).2
      rw [destructions_record, if_pos rfl] at hcount'
      refine ⟨?_, hcount.trans hcount'⟩
      rw [hflag, freeAt_release hlen, decide_eq_true rfl, Bool.true_or]
    · obtain ⟨hflag, hcount⟩ := hrest.elsewhere (hdisjoint i hi)
      obtain ⟨hflag', hcount'⟩ := hqunder i hi
      refine ⟨?_, hcount.trans hcount'⟩
      rw [hflag, freeAt_release hlen, hflag', Bool.or_true]
    · have hocc' : Occupied rest (q.release slot) := by
        intro j hj
        rw [length_release, hunder.progress.length]
        exact ⟨(hoccrest j hj).1, (hqrest j hj).1⟩
      rw [← (hqrest i hi).2]
      exact ihrest hf'' hocc' hi

end Destructs

/-- Where an owner is gone, so are the objects it owned. -/
def Closed (f : Forest ℕ) (p : Pool α) : Prop :=
  ∀ t ∈ f.nodes, freeAt p.store t.1 → ∀ s ∈ t.2.trees, freeAt p.store s.1

section Closure

variable {f g : Forest ℕ} {p q : Pool α}

theorem Destructs.closed (h : Destructs g p q) (hf : f.labels.Nodup)
    (hsub : ∀ t ∈ g.nodes, t ∈ f.nodes) (hlt : ∀ i ∈ f.labels, i < p.store.length)
    (hp : Closed f p) : Closed f q := by
  induction h with
  | nil => exact hp
  | skip _ _ ih =>
    exact ih (fun t ht ↦ hsub t (Forest.mem_nodes_cons.mpr (.inr (.inr ht)))) hlt hp
  | @destroy p q r slot under rest hslot hfree hunder _ ihunder ihrest =>
    have hq := ihunder (fun t ht ↦ hsub t (Forest.mem_nodes_cons.mpr (.inr (.inl ht)))) hlt hp
    have hlen : slot < q.store.length := hunder.progress.length ▸ hslot
    have hnode := hsub (slot, under) (Forest.mem_nodes_cons.mpr (.inl rfl))
    have hrelease : Closed f (q.release slot) := by
      intro t ht hgone s hs
      rw [freeAt_release hlen] at hgone ⊢
      suffices hqs : freeAt q.store s.1 by rw [hqs, Bool.or_true]
      rcases eq_or_ne t.1 slot with heq | hne
      · -- The owner itself has just gone, after all that it owns.
        rw [Forest.node_unique hf ht hnode heq] at hs
        exact hunder.roots_free hs (hlt _ (Forest.label_of_nodes
          (Forest.nodes_under hnode (Forest.nodes_of_trees hs))))
      · exact hq t ht (by simpa [hne] using hgone) s hs
    refine ihrest (fun t ht ↦ hsub t (Forest.mem_nodes_cons.mpr (.inr (.inr ht)))) ?_ hrelease
    intro i hi
    rw [length_release, hunder.progress.length]
    exact hlt i hi

end Closure

/-- One iteration of `~MemPool()` at a slot. -/
inductive Visits (f : Forest ℕ) : Pool α → ℕ → Pool α → Prop
  | skip {p : Pool α} {slot : ℕ} : freeAt p.store slot → Visits f p slot p
  | destroy {p q r : Pool α} {slot : ℕ} : slot < p.store.length → freeAt p.store slot = false →
      Destructs (f.under slot) (p.record (.destroyed slot)) q →
      r.store.length = q.store.length → (∀ i, freeAt r.store i = freeAt q.store i) →
      r.lifetimes = q.lifetimes → Visits f p slot r

section Iteration

variable {f : Forest ℕ} {p q : Pool α} {slot : ℕ}

theorem not_mem_under (hf : f.labels.Nodup) (slot : ℕ) : slot ∉ (f.under slot).labels := by
  rcases f.under_cases slot with hnode | hnil
  · exact (Forest.nodup_cons (Forest.nodup_tree hf hnode)).1.1
  · rw [hnil]
    exact List.not_mem_nil

theorem destroyBlock_visits (lay : Layout) (hlt : slot < p.store.length) :
    Visits f p slot (p.destroyBlock (fun i ↦ destruct lay (f.under i)) slot) := by
  have hget := List.getElem?_eq_getElem hlt
  have hcourse := destruct_destructs lay (f.under slot) (p.record (.destroyed slot))
  unfold Pool.destroyBlock
  rw [hget]
  dsimp only
  split
  next hflag => exact .skip ((freeAt_of_getElem? hget).trans hflag)
  next hflag =>
    have hfree : freeAt p.store slot = false :=
      (freeAt_of_getElem? hget).trans (Bool.eq_false_of_not_eq_true hflag)
    exact .destroy hlt hfree hcourse (List.length_modify ..) (freeAt_modify _ slot) rfl

namespace Visits

theorem destructions {r : Pool α} (h : r.lifetimes = q.lifetimes) (i : ℕ) :
    r.destructions i = q.destructions i := congrArg (List.count _) h

theorem progress (h : Visits f p slot q) : Progress p q := by
  cases h with
  | skip => exact .refl p
  | destroy hlt hfree hcourse hlen hflags hlives =>
    have hdown := (Progress.record hfree).trans hcourse.progress
    exact {
      length := hlen.trans hdown.length
      stays := fun i hi ↦ (hflags i).trans (hdown.stays i hi)
      spared := fun i hi ↦ (destructions hlives i).trans (hdown.spared i hi)
      grows := fun i ↦ (hdown.grows i).trans_eq (destructions hlives i).symm
      freed := fun i hi hi' ↦
        (hdown.freed i hi ((hflags i).symm.trans hi')).trans_eq (destructions hlives i).symm }

theorem closed (hf : f.labels.Nodup) (h : Visits f p slot q)
    (hlt : ∀ i ∈ f.labels, i < p.store.length) (hp : Closed f p) : Closed f q := by
  cases h with
  | skip => exact hp
  | destroy _ _ hcourse _ hflags _ =>
    have hsub : ∀ t ∈ (f.under slot).nodes, t ∈ f.nodes := by
      intro t ht
      rcases f.under_cases slot with hnode | hnil
      · exact Forest.nodes_under hnode ht
      · rw [hnil] at ht
        cases ht
    have hq := hcourse.closed hf hsub hlt hp
    intro t ht hgone s hs
    rw [hflags] at hgone ⊢
    exact hq t ht hgone s hs

theorem owned_free (hf : f.labels.Nodup) (h : Visits f p slot q)
    (hlt : ∀ i ∈ f.labels, i < p.store.length) (hp : Closed f p) {t s : ℕ × Forest ℕ}
    (ht : t ∈ f.nodes) (hslot : t.1 = slot) (hs : s ∈ t.2.trees) : freeAt q.store s.1 := by
  cases h with
  | skip hfree => exact hp t ht (hslot ▸ hfree) s hs
  | destroy _ _ hcourse _ hflags _ =>
    have hlabel := Forest.label_of_nodes (Forest.nodes_under ht (Forest.nodes_of_trees hs))
    rw [← hslot, Forest.under_of_nodes hf ht] at hcourse
    rw [hflags]
    exact hcourse.roots_free hs (hlt _ hlabel)

theorem elsewhere (hf : f.labels.Nodup) (h : Visits f p slot q) {t : ℕ × Forest ℕ}
    (ht : t ∈ f.trees) (hslot : slot ∈ (Forest.tree t).labels → freeAt p.store slot) {i : ℕ}
    (hi : i ∈ (Forest.tree t).labels) :
    freeAt q.store i = freeAt p.store i ∧ q.destructions i = p.destructions i := by
  cases h with
  | skip => exact ⟨rfl, rfl⟩
  | destroy _ hfree hcourse _ hflags hlives =>
    have hout : slot ∉ (Forest.tree t).labels := by
      intro hmem
      rw [hslot hmem] at hfree
      cases hfree
    have hne : i ≠ slot := fun heq ↦ hout (heq ▸ hi)
    have hunder : i ∉ (f.under slot).labels := by
      intro hmem
      rcases f.under_cases slot with hnode | hnil
      · exact hout (Forest.node_in_tree hf ht hnode (Forest.mem_labels_tree.mpr (.inr hmem)) hi)
      · rw [hnil] at hmem
        cases hmem
    obtain ⟨hflag, hcount⟩ := hcourse.elsewhere hunder
    rw [destructions_record, if_neg hne, Nat.add_zero] at hcount
    exact ⟨(hflags i).trans hflag, (destructions hlives i).trans hcount⟩

end Visits

end Iteration

section Loop

variable {f : Forest ℕ} {p q : Pool α} {slots : List ℕ}

theorem loop_visits (lay : Layout) (slots : List ℕ) {p : Pool α}
    (hlt : ∀ i ∈ slots, i < p.store.length) : Run (Visits f) p slots
      (slots.foldl (Pool.destroyBlock fun i ↦ destruct lay (f.under i)) p) := by
  induction slots generalizing p with
  | nil => exact .nil
  | cons slot slots ih =>
    have hvisit := destroyBlock_visits (f := f) lay (hlt slot List.mem_cons_self)
    refine .cons hvisit (ih ?_)
    intro i hi
    rw [hvisit.progress.length]
    exact hlt i (List.mem_cons_of_mem _ hi)

theorem loop_progress (h : Run (Visits f) p slots q) : Progress p q := by
  induction h with
  | nil => exact .refl p
  | snoc _ hvisit ih => exact ih.trans hvisit.progress

theorem loop_closed (hf : f.labels.Nodup) (h : Run (Visits f) p slots q)
    (hlt : ∀ i ∈ f.labels, i < p.store.length) (hp : Closed f p) : Closed f q := by
  induction h with
  | nil => exact hp
  | snoc hrun hvisit ih =>
    refine hvisit.closed hf ?_ ih
    intro i hi
    rw [(loop_progress hrun).length]
    exact hlt i hi

theorem loop_elsewhere (hf : f.labels.Nodup) (h : Run (Visits f) p slots q) {t : ℕ × Forest ℕ}
    (ht : t ∈ f.trees)
    (hslots : ∀ k ∈ slots, k ∈ (Forest.tree t).labels → freeAt p.store k) {i : ℕ}
    (hi : i ∈ (Forest.tree t).labels) :
    freeAt q.store i = freeAt p.store i ∧ q.destructions i = p.destructions i := by
  induction h generalizing i with
  | nil => exact ⟨rfl, rfl⟩
  | @snoc slots slot q r _ hvisit ih =>
    have hpast := fun k hk ↦ hslots k (List.mem_append_left [slot] hk)
    have hslot : slot ∈ (Forest.tree t).labels → freeAt q.store slot := by
      intro hmem
      rw [(ih hpast hmem).1]
      exact hslots slot (by simp) hmem
    obtain ⟨hflag, hcount⟩ := hvisit.elsewhere hf ht hslot hi
    obtain ⟨hflag', hcount'⟩ := ih hpast hi
    exact ⟨hflag.trans hflag', hcount.trans hcount'⟩

end Loop

section Destructor

variable {f : Forest ℕ} (lay : Layout) {p : Pool α}

theorem destructor_visits {slot : ℕ} (hlt : slot < p.store.length) :
    ∃ p₁ p₂, Run (Visits f) p (List.range slot) p₁ ∧ Visits f p₁ slot p₂ ∧
      Run (Visits f) p₂ (List.range' (slot + 1) (p.store.length - (slot + 1)))
        (p.destructor fun i ↦ destruct lay (f.under i)) := by
  have hsplit : List.range p.store.length =
      List.range slot ++ slot :: List.range' (slot + 1) (p.store.length - (slot + 1)) := by
    have hlen : p.store.length = slot + (p.store.length - (slot + 1) + 1) := by omega
    rw [hlen, List.range_add, ← List.range'_eq_map_range, List.range'_succ, ← hlen]
  have hbefore := loop_visits (f := f) lay (List.range slot) (p := p) fun i hi ↦
    (List.mem_range.mp hi).trans hlt
  have hlen := (loop_progress hbefore).length
  have hat := destroyBlock_visits (f := f) lay (hlen.symm ▸ hlt)
  refine ⟨_, _, hbefore, hat, ?_⟩
  rw [Pool.destructor, hsplit, List.foldl_append, List.foldl_cons]
  apply loop_visits lay
  intro i hi
  rw [hat.progress.length, hlen]
  have hi := List.mem_range'_1.mp hi
  omega

theorem destructor_progress : Progress p (p.destructor fun i ↦ destruct lay (f.under i)) :=
  loop_progress (loop_visits lay _ fun _ hi ↦ List.mem_range.mp hi)

variable (hf : f.labels.Nodup)
include hf

theorem destructor_owned_free (hlt : ∀ i ∈ f.labels, i < p.store.length) (hp : Closed f p)
    {t s : ℕ × Forest ℕ} (ht : t ∈ f.nodes) (hs : s ∈ t.2.trees) :
    freeAt (p.destructor fun i ↦ destruct lay (f.under i)).store s.1 := by
  obtain ⟨p₁, p₂, hbefore, hat, hafter⟩ :=
    destructor_visits lay (hlt t.1 (Forest.label_of_nodes ht))
  have hp₁ := loop_closed hf hbefore hlt hp
  have hlt₁ : ∀ i ∈ f.labels, i < p₁.store.length := by
    intro i hi
    rw [(loop_progress hbefore).length]
    exact hlt i hi
  exact (loop_progress hafter).stays _ (hat.owned_free hf hlt₁ hp₁ ht rfl hs)

section Tree

variable {t : ℕ × Forest ℕ} (ht : t ∈ f.trees) (hocc : Occupied (Forest.tree t) p)
include ht hocc

/-- The loop comes to a tree at its lowest slot, and destroys the object there. -/
theorem destructor_enters {slot : ℕ} (hslot : slot ∈ (Forest.tree t).labels)
    (hmin : ∀ i ∈ (Forest.tree t).labels, slot ≤ i) :
    ∃ p₁ q p₂ : Pool α, Occupied (Forest.tree t) p₁ ∧
      (∀ i ∈ (Forest.tree t).labels, p₁.destructions i = p.destructions i) ∧
      Destructs (f.under slot) (p₁.record (.destroyed slot)) q ∧
      (∀ i, freeAt p₂.store i = freeAt q.store i) ∧ p₂.lifetimes = q.lifetimes ∧
      Run (Visits f) p₂ (List.range' (slot + 1) (p.store.length - (slot + 1)))
        (p.destructor fun i ↦ destruct lay (f.under i)) := by
  obtain ⟨p₁, p₂, hbefore, hat, hafter⟩ := destructor_visits lay (hocc slot hslot).1
  have hout : ∀ k ∈ List.range slot, k ∈ (Forest.tree t).labels → freeAt p.store k := by
    intro k hk hk'
    have hle := hmin k hk'
    have hlt := List.mem_range.mp hk
    omega
  have hsame := fun i hi ↦ loop_elsewhere hf hbefore ht hout (i := i) hi
  have hocc₁ : Occupied (Forest.tree t) p₁ := by
    intro i hi
    rw [(loop_progress hbefore).length, (hsame i hi).1]
    exact hocc i hi
  cases hat with
  | skip hfree =>
    rw [(hocc₁ slot hslot).2] at hfree
    cases hfree
  | destroy _ _ hcourse _ hflags hlives =>
    exact ⟨p₁, _, p₂, hocc₁, fun i hi ↦ (hsame i hi).2, hcourse, hflags, hlives, hafter⟩

theorem destructor_once (hroot : ∀ i ∈ t.2.labels, t.1 < i) {i : ℕ}
    (hi : i ∈ (Forest.tree t).labels) :
    (p.destructor fun i ↦ destruct lay (f.under i)).destructions i = p.destructions i + 1 := by
  have hmin : ∀ i ∈ (Forest.tree t).labels, t.1 ≤ i := by
    intro i hi
    rcases Forest.mem_labels_tree.mp hi with rfl | hi
    · exact Nat.le_refl _
    · exact (hroot i hi).le
  obtain ⟨p₁, q, p₂, hocc₁, hcount₁, hcourse, hflags, hlives, hafter⟩ := destructor_enters lay hf
    ht hocc (Forest.mem_labels_tree.mpr (.inl rfl)) hmin
  have hnode := Forest.nodes_of_trees ht
  obtain ⟨⟨hown, -⟩, hunder, -, -⟩ := Forest.nodup_cons (Forest.nodup_tree hf hnode)
  rw [Forest.under_of_nodes hf hnode] at hcourse
  have hgone : ∀ i ∈ t.2.labels, freeAt q.store i ∧ q.destructions i = p₁.destructions i + 1 := by
    intro i hi
    have hne : i ≠ t.1 := (hroot i hi).ne'
    have hgone := hcourse.occupied hunder hocc₁.cons.2.1 hi
    rwa [destructions_record, if_neg hne, Nat.add_zero] at hgone
  have hskip : ∀ k ∈ List.range' (t.1 + 1) (p.store.length - (t.1 + 1)),
      k ∈ (Forest.tree t).labels → freeAt p₂.store k := by
    intro k hk hk'
    have hlow := (List.mem_range'_1.mp hk).1
    rw [hflags]
    rcases Forest.mem_labels_tree.mp hk' with rfl | hk'
    · omega
    · exact (hgone k hk').1
  rw [(loop_elsewhere hf hafter ht hskip hi).2, Visits.destructions hlives, ← hcount₁ i hi]
  rcases Forest.mem_labels_tree.mp hi with rfl | hi
  · rw [(hcourse.elsewhere hown).2, destructions_record, if_pos rfl]
  · exact (hgone i hi).2

/-- The object at the lowest slot is destroyed there without its flag being set,
and again by its owner. -/
theorem destructor_twice (hlt : ∀ i ∈ f.labels, i < p.store.length) (hp : Closed f p) {slot : ℕ}
    (hslot : slot ∈ t.2.labels)
    (hmin : ∀ i ∈ (Forest.tree t).labels, slot ≤ i) : p.destructions slot + 1 <
      (p.destructor fun i ↦ destruct lay (f.under i)).destructions slot := by
  have hmem := Forest.mem_labels_tree.mpr (.inr hslot)
  have hnode := Forest.nodes_of_trees ht
  obtain ⟨p₁, q, p₂, hocc₁, hcount₁, hcourse, hflags, hlives, hafter⟩ := destructor_enters lay hf
    ht hocc hmem hmin
  have hfirst := hcourse.progress.destroyed
  have hkept : freeAt p₂.store slot = false := by
    rw [hflags, (hcourse.elsewhere (not_mem_under hf slot)).1]
    exact (hocc₁ slot hmem).2
  have hfinal : freeAt (p.destructor fun i ↦ destruct lay (f.under i)).store slot := by
    rcases Forest.parent hslot with ⟨s, hs, rfl⟩ | ⟨u, hu, s, hs, rfl⟩
    · exact destructor_owned_free lay hf hlt hp hnode hs
    · exact destructor_owned_free lay hf hlt hp (Forest.nodes_under hnode hu) hs
  have hsecond := (loop_progress hafter).freed slot hkept hfinal
  rw [Visits.destructions hlives] at hsecond
  rw [← hcount₁ slot hmem]
  omega

theorem destructor_once_iff (hlt : ∀ i ∈ f.labels, i < p.store.length) (hp : Closed f p) :
    (∀ i ∈ (Forest.tree t).labels,
      (p.destructor fun i ↦ destruct lay (f.under i)).destructions i = p.destructions i + 1) ↔
    ∀ i ∈ t.2.labels, t.1 < i := by
  constructor
  · intro honce i hi
    have hmem := Forest.mem_labels_tree.mpr (.inr hi)
    have hex : ∃ k, k ∈ (Forest.tree t).labels := ⟨i, hmem⟩
    have hmin : ∀ j ∈ (Forest.tree t).labels, Nat.find hex ≤ j := fun j hj ↦ Nat.find_min' hex hj
    rcases Forest.mem_labels_tree.mp (Nat.find_spec hex) with hroot | hunder
    · have hown := (Forest.nodup_cons (Forest.nodup_tree hf (Forest.nodes_of_trees ht))).1.1
      have hne : i ≠ t.1 := fun heq ↦ hown (heq ▸ hi)
      have hle := hmin i hmem
      omega
    · have htwice := destructor_twice lay hf ht hocc hlt hp hunder hmin
      rw [honce _ (Nat.find_spec hex)] at htwice
      exact absurd htwice (Nat.lt_irrefl _)
  · intro hroot i hi
    exact destructor_once lay hf ht hocc hroot hi

end Tree

end Destructor

section Outside

variable {f : Forest ℕ} {p q : Pool α}

theorem Occupied.tree (h : Occupied f p) {t : ℕ × Forest ℕ} (ht : t ∈ f.trees) :
    Occupied (Forest.tree t) p := by
  intro i hi
  exact h i (Forest.labels_of_nodes (Forest.nodes_of_trees ht) hi)

theorem Occupied.closed (h : Occupied f p) : Closed f p := by
  intro t ht hfree
  rw [(h t.1 (Forest.label_of_nodes ht)).2] at hfree
  cases hfree

theorem Owns.occupied (h : Owns f p) (hp : Consistent cap p) : Occupied f p := by
  intro i hi
  obtain ⟨hlt, hfree⟩ := hp.occupied ((h.live i).mp hi)
  exact ⟨hp.length ▸ hlt, hfree⟩

theorem deallocate_consistent (lay : Layout) (hf : f.labels.Nodup) (hp : Consistent cap p)
    {t : ℕ × Forest ℕ} (ht : t ∈ f.trees) :
    Consistent cap (p.deallocate lay (destruct lay t.2) (lay.address t.1)).2 :=
  (deallocate_destructs lay t p).consistent (Forest.nodup_tree hf (Forest.nodes_of_trees ht)) hp

theorem Reached.consistent {lay : Layout} (h : Reached cap lay p) : Consistent cap p := by
  induction h with
  | new => exact new_consistent cap
  | call op _ ih => exact ih.call lay op
  | deallocate _ hf ht ih => exact deallocate_consistent lay hf.distinct ih ht

structure Cleared (f : Forest ℕ) (p : Pool α) (ts : List (ℕ × Forest ℕ)) (q : Pool α) : Prop where
  length : q.store.length = p.store.length
  closed : Closed f q
  gone : ∀ t ∈ ts, ∀ i ∈ (Forest.tree t).labels,
    freeAt q.store i ∧ q.destructions i = p.destructions i + 1
  intact : ∀ t ∈ f.trees, t ∉ ts → ∀ i ∈ (Forest.tree t).labels,
    freeAt q.store i = freeAt p.store i ∧ q.destructions i = p.destructions i

theorem Cleared.deallocate (lay : Layout) (hf : f.labels.Nodup) (hocc : Occupied f p)
    {ts : List (ℕ × Forest ℕ)} (h : Cleared f p ts q) {t : ℕ × Forest ℕ} (ht : t ∈ f.trees)
    (hts : ∀ s ∈ ts, s ∈ f.trees) : Cleared f p (ts ++ [t])
      (q.deallocate lay (destruct lay t.2) (lay.address t.1)).2 := by
  have hcourse := deallocate_destructs lay t q
  have hnode := Forest.nodes_of_trees ht
  have hrange : ∀ i ∈ f.labels, i < q.store.length := by
    intro i hi
    rw [h.length]
    exact (hocc i hi).1
  have hsub : ∀ s ∈ (Forest.tree t).nodes, s ∈ f.nodes := by
    intro s hs
    rcases Forest.mem_nodes_cons.mp hs with rfl | hs | hs
    · exact hnode
    · exact Forest.nodes_under hnode hs
    · cases hs
  have hother : ∀ s ∈ f.trees, s ≠ t → ∀ i ∈ (Forest.tree s).labels,
      freeAt (q.deallocate lay (destruct lay t.2) (lay.address t.1)).2.store i =
          freeAt q.store i ∧
        (q.deallocate lay (destruct lay t.2) (lay.address t.1)).2.destructions i =
          q.destructions i := by
    intro s hs hne i hi
    exact hcourse.elsewhere fun hi' ↦ hne (Forest.tree_unique hf hs ht hi hi')
  refine ⟨hcourse.progress.length.trans h.length, hcourse.closed hf hsub hrange h.closed, ?_, ?_⟩
  · intro s hs i hi
    rcases eq_or_ne s t with rfl | hne
    · by_cases hmem : s ∈ ts
      · -- The tree has gone before, and `deallocate()` rejects its root.
        have hroot := (h.gone s hmem s.1 (Forest.mem_labels_tree.mpr (.inl rfl))).1
        rw [deallocate_free lay hroot]
        exact h.gone s hmem i hi
      · have hsame := h.intact s ht hmem
        have hocc' : Occupied (Forest.tree s) q := by
          intro j hj
          rw [h.length, (hsame j hj).1]
          exact hocc.tree ht j hj
        rw [← (hsame i hi).2]
        exact hcourse.occupied (Forest.nodup_tree hf hnode) hocc' hi
    · have hmem : s ∈ ts := by simpa [hne] using hs
      obtain ⟨hflag, hcount⟩ := hother s (hts s hmem) hne i hi
      rw [hflag, hcount]
      exact h.gone s hmem i hi
  · intro s hs hmem i hi
    rw [List.mem_append, List.mem_singleton, not_or] at hmem
    obtain ⟨hflag, hcount⟩ := hother s hs hmem.2 i hi
    rw [hflag, hcount]
    exact h.intact s hs hmem.1 i hi

theorem deallocateRoots_spec (lay : Layout) (hf : f.labels.Nodup) (hp : Consistent cap p)
    (hocc : Occupied f p) (ts : List (ℕ × Forest ℕ)) (hts : ∀ t ∈ ts, t ∈ f.trees) :
    Consistent cap (p.deallocateRoots lay ts) ∧ Cleared f p ts (p.deallocateRoots lay ts) := by
  induction ts using List.reverseRecOn with
  | nil =>
    refine ⟨hp, rfl, hocc.closed, ?_, ?_⟩
    · intro t ht
      cases ht
    · intro t _ _ i _
      exact ⟨rfl, rfl⟩
  | append_singleton ts t ih =>
    have hpast : ∀ s ∈ ts, s ∈ f.trees := fun s hs ↦ hts s (List.mem_append_left _ hs)
    have ht : t ∈ f.trees := hts t (by simp)
    obtain ⟨hq, hcleared⟩ := ih hpast
    rw [Pool.deallocateRoots, List.foldl_concat]
    exact ⟨deallocate_consistent lay hf hq ht, hcleared.deallocate lay hf hocc ht hpast⟩

end Outside

/-- Owned objects, calls of `deallocate()` on roots, and then `~MemPool()`. The
count is exact after the calls. Every object is destroyed once if and only if
each tree that is left to `~MemPool()` has its root in its lowest slot. -/
theorem owned_destroyed_once_iff (cap : Capacity) (lay : Layout) {p : Pool α}
    (hp : Reached cap lay p) {f : Forest ℕ} (hf : Owns f p) (ts : List (ℕ × Forest ℕ))
    (hts : ∀ t ∈ ts, t ∈ f.trees) :
    (p.deallocateRoots lay ts).numFree =
      (p.deallocateRoots lay ts).store.countP ObjectBlock.isFree ∧
    ((∀ i, (p.live i).isSome →
      ((p.deallocateRoots lay ts).destructor fun slot ↦
        destruct lay (f.under slot)).destructions i = p.destructions i + 1) ↔
      ∀ t ∈ f.trees, t ∉ ts → ∀ i ∈ t.2.labels, t.1 < i) := by
  have hc := hp.consistent
  have hdistinct := hf.distinct
  have hocc := hf.occupied hc
  obtain ⟨hq, hcleared⟩ := deallocateRoots_spec lay hdistinct hc hocc ts hts
  set q := p.deallocateRoots lay ts
  have hrange : ∀ i ∈ f.labels, i < q.store.length := by
    intro i hi
    rw [hcleared.length]
    exact (hocc i hi).1
  have hleft : ∀ t ∈ f.trees, t ∉ ts → Occupied (Forest.tree t) q := by
    intro t ht hmem i hi
    rw [hcleared.length, (hcleared.intact t ht hmem i hi).1]
    exact hocc.tree ht i hi
  refine ⟨hq.count, ?_, ?_⟩
  · intro hall t ht hmem
    refine (destructor_once_iff lay hdistinct ht (hleft t ht hmem) hrange hcleared.closed).mp ?_
    intro i hi
    rw [(hcleared.intact t ht hmem i hi).2]
    exact hall i ((hf.live i).mp (Forest.labels_of_nodes (Forest.nodes_of_trees ht) hi))
  · intro hroots i hlive
    obtain ⟨t, ht, hi⟩ := Forest.mem_labels_iff.mp ((hf.live i).mpr hlive)
    by_cases hmem : t ∈ ts
    · obtain ⟨hfree, hcount⟩ := hcleared.gone t hmem i hi
      rw [(destructor_progress lay).spared i hfree, hcount]
    · rw [destructor_once lay hdistinct ht (hleft t ht hmem) (hroots t ht hmem) hi,
        (hcleared.intact t ht hmem i hi).2]

theorem owned_destroyed_once_iff_three :
    let lay : Layout := ⟨64, 16, by decide, by decide⟩
    let p : Pool ℕ := [1, 2, 3].foldl (fun p v ↦ (p.call lay (.allocate (some v))).2)
      (Pool.new ⟨3, by decide, by decide⟩)
    let f : Forest ℕ := .cons 0 (.cons 1 .nil .nil) (.cons 2 .nil .nil)
    Reached ⟨3, by decide, by decide⟩ lay p ∧ Owns f p ∧
      ∀ i, (p.live i).isSome → ((p.deallocateRoots lay [(2, .nil)]).destructor fun slot ↦
        destruct lay (f.under slot)).destructions i = p.destructions i + 1 := by
  intro lay p f
  have hp : Reached ⟨3, by decide, by decide⟩ lay p := .call _ (.call _ (.call _ .new))
  have hf : Owns f p := by
    refine ⟨by decide, ?_⟩
    intro i
    match i with
    | 0 | 1 | 2 => decide
    | i + 3 => exact iff_of_false (by simp [f, Forest.labels]) Bool.false_ne_true
  have hiff := owned_destroyed_once_iff _ lay hp hf [(2, .nil)] (by
    intro t ht
    rw [List.mem_singleton.mp ht]
    exact List.mem_cons_of_mem _ List.mem_cons_self)
  refine ⟨hp, hf, hiff.2.mpr ?_⟩
  intro t ht hmem i hi
  rcases List.mem_cons.mp ht with rfl | ht
  · rw [show i = 1 by simpa [Forest.labels] using hi]
    exact Nat.zero_lt_one
  · exact absurd ht hmem

theorem owner_above_owned_destroys_twice :
    let lay : Layout := ⟨64, 16, by decide, by decide⟩
    let p : Pool ℕ := [1, 2].foldl (fun p v ↦ (p.call lay (.allocate (some v))).2)
      (Pool.new ⟨2, by decide, by decide⟩)
    let f : Forest ℕ := .cons 1 (.cons 0 .nil .nil) .nil
    Reached ⟨2, by decide, by decide⟩ lay p ∧ Owns f p ∧ p.destructions 0 = 0 ∧
      (p.destructor fun slot ↦ destruct lay (f.under slot)).lifetimes =
        p.lifetimes ++ [.destroyed 0, .destroyed 1, .destroyed 0] ∧
      (p.destructor fun slot ↦ destruct lay (f.under slot)).destructions 0 = 2 := by
  intro lay p f
  refine ⟨.call _ (.call _ .new), ⟨by decide, ?_⟩, by decide, by decide, by decide⟩
  intro i
  match i with
  | 0 | 1 => decide
  | i + 2 => exact iff_of_false (by simp [f, Forest.labels]) Bool.false_ne_true

end LowLatency.MemPool
