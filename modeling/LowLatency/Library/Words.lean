import Mathlib.Algebra.Group.Nat.Defs

namespace LowLatency.Library.Words

abbrev Byte := BitVec 8

def sizeRange : ℕ := 2 ^ 64

/-- A positive `size_t`: what a constructor that asserts `num_elems > 0` takes. -/
structure Capacity where
  size : ℕ
  pos : 0 < size
  fits : size < sizeRange

def sizeAdd (a b : ℕ) : ℕ := (a + b) % sizeRange

def sizeSub (a b : ℕ) : ℕ := if b ≤ a then a - b else sizeRange - (b - a)

theorem sizeAdd_eq {a b : ℕ} (h : a + b < sizeRange) : sizeAdd a b = a + b :=
  Nat.mod_eq_of_lt h

theorem sizeSub_eq {a b : ℕ} (h : b ≤ a) : sizeSub a b = a - b := if_pos h

section Checked

def checkedAdd (a b : ℕ) : Option ℕ := if a + b < sizeRange then some (a + b) else none

def checkedSub (a b : ℕ) : Option ℕ := if b ≤ a then some (a - b) else none

def check (p : Prop) [Decidable p] : Option Unit := if p then some () else none

theorem checkedAdd_eq {a b : ℕ} (h : a + b < sizeRange) : checkedAdd a b = some (sizeAdd a b) := by
  rw [checkedAdd, if_pos h, sizeAdd_eq h]

theorem checkedSub_eq {a b : ℕ} (h : b ≤ a) : checkedSub a b = some (sizeSub a b) := by
  rw [checkedSub, if_pos h, sizeSub_eq h]

theorem check_eq {p : Prop} [Decidable p] (h : p) : check p = some () := if_pos h

end Checked

end LowLatency.Library.Words
