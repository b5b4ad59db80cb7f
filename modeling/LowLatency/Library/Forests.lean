import Mathlib.Data.List.Nodup

namespace LowLatency.Library.Forests

variable {ι : Type*}

/-- A finite forest, as the root of its first tree, what is below that root, and
the other trees. -/
inductive Forest (ι : Type*)
  | nil
  | cons (root : ι) (under rest : Forest ι)

namespace Forest

def labels : Forest ι → List ι
  | .nil => []
  | .cons root under rest => root :: (under.labels ++ rest.labels)

def trees : Forest ι → List (ι × Forest ι)
  | .nil => []
  | .cons root under rest => (root, under) :: rest.trees

def nodes : Forest ι → List (ι × Forest ι)
  | .nil => []
  | .cons root under rest => (root, under) :: (under.nodes ++ rest.nodes)

def tree (t : ι × Forest ι) : Forest ι := .cons t.1 t.2 .nil

def under [DecidableEq ι] (f : Forest ι) (i : ι) : Forest ι :=
  ((f.nodes.find? fun t ↦ t.1 = i).map Prod.snd).getD .nil

theorem mem_labels_cons {i root : ι} {under rest : Forest ι} :
    i ∈ (cons root under rest).labels ↔ i = root ∨ i ∈ under.labels ∨ i ∈ rest.labels := by
  simp [labels]

theorem mem_nodes_cons {t : ι × Forest ι} {root : ι} {under rest : Forest ι} :
    t ∈ (cons root under rest).nodes ↔ t = (root, under) ∨ t ∈ under.nodes ∨ t ∈ rest.nodes := by
  simp [nodes]

theorem mem_labels_tree {i : ι} {t : ι × Forest ι} :
    i ∈ (tree t).labels ↔ i = t.1 ∨ i ∈ t.2.labels := by
  simp [tree, labels]

theorem nodup_cons {root : ι} {under rest : Forest ι} (h : (cons root under rest).labels.Nodup) :
    (root ∉ under.labels ∧ root ∉ rest.labels) ∧ under.labels.Nodup ∧ rest.labels.Nodup ∧
      ∀ i ∈ under.labels, i ∉ rest.labels := by
  obtain ⟨hroot, hrest⟩ := List.nodup_cons.mp h
  obtain ⟨hunder, hrest, hdisjoint⟩ := List.nodup_append.mp hrest
  refine ⟨not_or.mp fun hmem ↦ hroot (List.mem_append.mpr hmem), hunder, hrest, ?_⟩
  intro i hi hi'
  exact hdisjoint i hi i hi' rfl

theorem map_nodes (f : Forest ι) : f.nodes.map Prod.fst = f.labels := by
  induction f with
  | nil => rfl
  | cons root under rest ihunder ihrest => simp [nodes, labels, ihunder, ihrest]

theorem nodes_of_trees {f : Forest ι} {t : ι × Forest ι} (h : t ∈ f.trees) : t ∈ f.nodes := by
  induction f with
  | nil => cases h
  | cons root under rest _ ih =>
    rw [mem_nodes_cons]
    rcases List.mem_cons.mp h with rfl | h
    · exact .inl rfl
    · exact .inr (.inr (ih h))

theorem labels_of_nodes {f : Forest ι} {t : ι × Forest ι} (h : t ∈ f.nodes) {i : ι}
    (hi : i ∈ (tree t).labels) : i ∈ f.labels := by
  induction f with
  | nil => cases h
  | cons root under rest ihunder ihrest =>
    rw [mem_labels_cons]
    rcases mem_nodes_cons.mp h with rfl | h | h
    · exact (mem_labels_tree.mp hi).imp_right .inl
    · exact .inr (.inl (ihunder h))
    · exact .inr (.inr (ihrest h))

theorem label_of_nodes {f : Forest ι} {t : ι × Forest ι} (h : t ∈ f.nodes) : t.1 ∈ f.labels :=
  labels_of_nodes h List.mem_cons_self

theorem nodes_under {f : Forest ι} {t s : ι × Forest ι} (ht : t ∈ f.nodes) (hs : s ∈ t.2.nodes) :
    s ∈ f.nodes := by
  induction f with
  | nil => cases ht
  | cons root under rest ihunder ihrest =>
    rw [mem_nodes_cons]
    rcases mem_nodes_cons.mp ht with rfl | ht | ht
    · exact .inr (.inl hs)
    · exact .inr (.inl (ihunder ht))
    · exact .inr (.inr (ihrest ht))

theorem mem_labels_iff {f : Forest ι} {i : ι} :
    i ∈ f.labels ↔ ∃ t ∈ f.trees, i ∈ (tree t).labels := by
  constructor
  · intro hi
    induction f with
    | nil => cases hi
    | cons root under rest _ ih =>
      rcases mem_labels_cons.mp hi with hi | hi | hi
      · exact ⟨_, List.mem_cons_self, mem_labels_tree.mpr (.inl hi)⟩
      · exact ⟨_, List.mem_cons_self, mem_labels_tree.mpr (.inr hi)⟩
      · obtain ⟨t, ht, hi⟩ := ih hi
        exact ⟨t, List.mem_cons_of_mem _ ht, hi⟩
  · intro h
    obtain ⟨t, ht, hi⟩ := h
    exact labels_of_nodes (nodes_of_trees ht) hi

theorem parent {f : Forest ι} {i : ι} (hi : i ∈ f.labels) :
    (∃ s ∈ f.trees, s.1 = i) ∨ ∃ t ∈ f.nodes, ∃ s ∈ t.2.trees, s.1 = i := by
  induction f with
  | nil => cases hi
  | cons root under rest ihunder ihrest =>
    rcases mem_labels_cons.mp hi with rfl | hi | hi
    · exact .inl ⟨_, List.mem_cons_self, rfl⟩
    · rcases ihunder hi with hroot | ⟨t, ht, hs⟩
      · exact .inr ⟨_, mem_nodes_cons.mpr (.inl rfl), hroot⟩
      · exact .inr ⟨t, mem_nodes_cons.mpr (.inr (.inl ht)), hs⟩
    · rcases ihrest hi with ⟨s, hs, heq⟩ | ⟨t, ht, hs⟩
      · exact .inl ⟨s, List.mem_cons_of_mem _ hs, heq⟩
      · exact .inr ⟨t, mem_nodes_cons.mpr (.inr (.inr ht)), hs⟩

section Distinct

variable {f : Forest ι} (hf : f.labels.Nodup)
include hf

theorem node_unique {t s : ι × Forest ι} (ht : t ∈ f.nodes) (hs : s ∈ f.nodes)
    (heq : t.1 = s.1) : t = s := by
  rw [← map_nodes] at hf
  exact List.inj_on_of_nodup_map hf ht hs heq

theorem nodup_tree {t : ι × Forest ι} (ht : t ∈ f.nodes) : (tree t).labels.Nodup := by
  induction f with
  | nil => cases ht
  | cons root under rest ihunder ihrest =>
    obtain ⟨⟨hroot, -⟩, hunder, hrest, -⟩ := nodup_cons hf
    rcases mem_nodes_cons.mp ht with rfl | ht | ht
    · simp [tree, labels, hroot, hunder]
    · exact ihunder hunder ht
    · exact ihrest hrest ht

/-- What is below a node shares a label with a tree only if the node is in that
tree itself. -/
theorem node_in_tree {t s : ι × Forest ι} (ht : t ∈ f.trees) (hs : s ∈ f.nodes) {i : ι}
    (hi : i ∈ (tree s).labels) (hi' : i ∈ (tree t).labels) : s.1 ∈ (tree t).labels := by
  induction f with
  | nil => cases ht
  | cons root under rest ihunder ihrest =>
    obtain ⟨⟨hroot, hroot'⟩, hunder, hrest, hdisjoint⟩ := nodup_cons hf
    rcases List.mem_cons.mp ht with rfl | ht
    · rw [mem_labels_tree] at hi' ⊢
      rcases mem_nodes_cons.mp hs with rfl | hs | hs
      · exact .inl rfl
      · exact .inr (label_of_nodes hs)
      · have hirest := labels_of_nodes hs hi
        rcases hi' with rfl | hi'
        · exact absurd hirest hroot'
        · exact absurd hirest (hdisjoint i hi')
    · have hirest := labels_of_nodes (nodes_of_trees ht) hi'
      rcases mem_nodes_cons.mp hs with rfl | hs | hs
      · rcases mem_labels_tree.mp hi with rfl | hi
        · exact absurd hirest hroot'
        · exact absurd hirest (hdisjoint i hi)
      · exact absurd hirest (hdisjoint i (labels_of_nodes hs hi))
      · exact ihrest hrest ht hs

theorem tree_unique {t s : ι × Forest ι} (ht : t ∈ f.trees) (hs : s ∈ f.trees) {i : ι}
    (hi : i ∈ (tree t).labels) (hi' : i ∈ (tree s).labels) : t = s := by
  induction f with
  | nil => cases ht
  | cons root under rest _ ih =>
    obtain ⟨⟨hroot, hroot'⟩, -, hrest, hdisjoint⟩ := nodup_cons hf
    have hfirst (hi : i ∈ (tree (root, under)).labels) : i ∉ rest.labels := by
      rcases mem_labels_tree.mp hi with rfl | hi
      · exact hroot'
      · exact hdisjoint i hi
    rcases List.mem_cons.mp ht with rfl | ht
    · rcases List.mem_cons.mp hs with rfl | hs
      · rfl
      · exact absurd (labels_of_nodes (nodes_of_trees hs) hi') (hfirst hi)
    · rcases List.mem_cons.mp hs with rfl | hs
      · exact absurd (labels_of_nodes (nodes_of_trees ht) hi) (hfirst hi')
      · exact ih hrest ht hs

end Distinct

section Under

variable [DecidableEq ι] {f : Forest ι}

theorem under_cases (f : Forest ι) (i : ι) : (i, f.under i) ∈ f.nodes ∨ f.under i = .nil := by
  cases hfind : f.nodes.find? fun t ↦ t.1 = i with
  | none => exact .inr (by simp [under, hfind])
  | some t =>
    have hmem := List.mem_of_find?_eq_some hfind
    have hlabel : t.1 = i := by simpa using List.find?_some hfind
    refine .inl ?_
    rw [under, hfind, ← hlabel]
    exact hmem

theorem under_of_nodes (hf : f.labels.Nodup) {t : ι × Forest ι} (ht : t ∈ f.nodes) :
    f.under t.1 = t.2 := by
  rw [under]
  cases hfind : f.nodes.find? fun s ↦ s.1 = t.1 with
  | none =>
    have hne := List.find?_eq_none.mp hfind t ht
    simp at hne
  | some s =>
    have hlabel : s.1 = t.1 := by simpa using List.find?_some hfind
    rw [node_unique hf (List.mem_of_find?_eq_some hfind) ht hlabel]
    rfl

end Under

end Forest

end LowLatency.Library.Forests
