import Mathlib.Data.List.Basic
import Mathlib.Data.List.Range

namespace LowLatency.Library.ByteBuffer

variable {β : Type*}

def slice (m : ℕ → β) (off len : ℕ) : List β := (List.range len).map fun i ↦ m (off + i)

/-- `memcpy` into a memory at `off`. -/
def copyIn (m : ℕ → β) (off : ℕ) (bs : List β) : ℕ → β :=
  fun j ↦ if off ≤ j then (bs[j - off]?).getD (m j) else m j

/-- `memmove` inside a memory. -/
def move (m : ℕ → β) (dst src len : ℕ) : ℕ → β := copyIn m dst (slice m src len)

@[simp] theorem slice_length (m : ℕ → β) (off len : ℕ) : (slice m off len).length = len := by
  simp [slice]

@[simp] theorem slice_zero (m : ℕ → β) (off : ℕ) : slice m off 0 = [] := rfl

theorem slice_add (m : ℕ → β) (off a b : ℕ) :
    slice m off (a + b) = slice m off a ++ slice m (off + a) b := by
  simp [slice, List.range_add, Nat.add_assoc]

theorem slice_split (m : ℕ → β) (off : ℕ) {k n : ℕ} (h : k ≤ n) :
    slice m off n = slice m off k ++ slice m (off + k) (n - k) := by
  rw [← slice_add, Nat.add_sub_cancel' h]

theorem slice_congr {m m' : ℕ → β} {off off' len : ℕ}
    (h : ∀ i < len, m (off + i) = m' (off' + i)) : slice m off len = slice m' off' len :=
  List.map_congr_left fun i hi ↦ h i (List.mem_range.mp hi)

theorem eq_of_slice_eq {m m' : ℕ → β} {n : ℕ} (h : slice m 0 n = slice m' 0 n) :
    ∀ i < n, m i = m' i := by
  intro i hi
  have hmap := List.map_inj_left.mp h i (List.mem_range.mpr hi)
  rwa [Nat.zero_add] at hmap

theorem slice_copyIn (m : ℕ → β) (off : ℕ) (bs : List β) :
    slice (copyIn m off bs) off bs.length = bs := by
  apply List.ext_getElem (slice_length ..)
  intro i h₁ h₂
  simp [slice, copyIn, h₂]

theorem slice_copyIn_below (m : ℕ → β) {off len k : ℕ} (bs : List β) (h : off + len ≤ k) :
    slice (copyIn m k bs) off len = slice m off len := by
  apply slice_congr
  intro i hi
  rw [copyIn, if_neg (by omega)]

theorem slice_append (m : ℕ → β) (n : ℕ) (bs : List β) :
    slice (copyIn m n bs) 0 (n + bs.length) = slice m 0 n ++ bs := by
  rw [slice_add, slice_copyIn_below _ _ (by omega), Nat.zero_add, slice_copyIn]

theorem slice_move (m : ℕ → β) (k n : ℕ) :
    slice (move m 0 k n) 0 n = slice m k n := by
  have h := slice_copyIn m 0 (slice m k n)
  rwa [slice_length] at h

theorem copyIn_congr {m m' : ℕ → β} {n : ℕ} (h : ∀ i < n, m i = m' i) (bs : List β) :
    ∀ i < n + bs.length, copyIn m n bs i = copyIn m' n bs i := by
  intro i hi
  unfold copyIn
  split
  next hle => rw [List.getElem?_eq_getElem (by omega), Option.getD_some, Option.getD_some]
  next hlt => exact h i (by omega)

theorem slice_take (m : ℕ → β) (off : ℕ) {k n : ℕ} (h : k ≤ n) :
    (slice m off n).take k = slice m off k := by
  rw [slice_split m off h, List.take_left' (slice_length ..)]

end LowLatency.Library.ByteBuffer
