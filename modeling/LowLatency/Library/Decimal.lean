import Mathlib.Algebra.Order.Group.Nat
import Mathlib.Data.Char
import Mathlib.Data.List.Forall2
import Mathlib.Data.List.Lex
import Mathlib.Data.Nat.Log

namespace LowLatency.Library.Decimal

theorem append_lt_append_iff {α : Type*} [LinearOrder α] {l l' m m' : List α}
    (h : l.length = l'.length) : l ++ m < l' ++ m' ↔ l < l' ∨ l = l' ∧ m < m' := by
  induction l generalizing l' with
  | nil =>
    cases l' with
    | nil => simp
    | cons a l' => cases h
  | cons a l ih =>
    cases l' with
    | nil => cases h
    | cons b l' =>
      simp only [List.cons_append, List.cons_lt_cons_iff, ih (Nat.succ.inj h), List.cons.injEq]
      tauto

theorem eq_of_lt_iff {α β : Type*} [LinearOrder α] [Preorder β] {x y : α} {u v : β}
    (h : u < v ↔ x < y) (h' : v < u ↔ y < x) (heq : u = v) : x = y := by
  subst heq
  exact le_antisymm (not_lt.1 fun hlt ↦ lt_irrefl u (h'.2 hlt))
    (not_lt.1 fun hlt ↦ lt_irrefl u (h.2 hlt))

section Padded

/-- The last `w` decimal digits of a number. -/
def padded : ℕ → ℕ → List Char
  | 0, _ => []
  | w + 1, n => padded w (n / 10) ++ [(n % 10).digitChar]

@[simp] theorem padded_length (w n : ℕ) : (padded w n).length = w := by
  induction w generalizing n with
  | zero => rfl
  | succ w ih => rw [padded, List.length_append, ih, List.length_singleton]

theorem digitChar_lt_iff {a b : ℕ} (ha : a < 10) (hb : b < 10) :
    a.digitChar < b.digitChar ↔ a < b := by
  have hall : ∀ a < 10, ∀ b < 10, a.digitChar < b.digitChar ↔ a < b := by decide
  exact hall a ha b hb

variable {w a b : ℕ}

theorem padded_lt_iff (ha : a < 10 ^ w) (hb : b < 10 ^ w) :
    padded w a < padded w b ↔ a < b := by
  induction w generalizing a b with
  | zero =>
    rw [pow_zero] at ha hb
    exact iff_of_false (lt_irrefl []) (by omega)
  | succ w ih =>
    have ha' : a / 10 < 10 ^ w := Nat.div_lt_of_lt_mul (by rwa [← pow_succ'])
    have hb' : b / 10 < 10 ^ w := Nat.div_lt_of_lt_mul (by rwa [← pow_succ'])
    have heq : padded w (a / 10) = padded w (b / 10) ↔ a / 10 = b / 10 :=
      ⟨eq_of_lt_iff (ih ha' hb') (ih hb' ha'), fun h ↦ h ▸ rfl⟩
    have hdigit : [(a % 10).digitChar] < [(b % 10).digitChar] ↔ a % 10 < b % 10 := by
      rw [List.cons_lt_cons_iff, digitChar_lt_iff (Nat.mod_lt a (by omega))
        (Nat.mod_lt b (by omega))]
      simp
    rw [padded, padded, append_lt_append_iff (by simp), ih ha' hb', heq, hdigit]
    omega

theorem padded_eq_iff (ha : a < 10 ^ w) (hb : b < 10 ^ w) : padded w a = padded w b ↔ a = b :=
  ⟨eq_of_lt_iff (padded_lt_iff ha hb) (padded_lt_iff hb ha), fun h ↦ h ▸ rfl⟩

theorem toDigits_eq_padded (hle : 10 ^ w ≤ a) (hlt : a < 10 ^ (w + 1)) :
    Nat.toDigits 10 a = padded (w + 1) a := by
  induction w generalizing a with
  | zero =>
    rw [zero_add, pow_one] at hlt
    rw [Nat.toDigits_of_lt_base hlt, padded, padded, Nat.mod_eq_of_lt hlt]
    rfl
  | succ w ih =>
    have hten : 10 ≤ a := le_trans (Nat.le_self_pow (Nat.succ_ne_zero w) 10) hle
    rw [Nat.toDigits_of_base_le (by omega) hten, padded, ih]
    · exact (Nat.le_div_iff_mul_le (by omega)).2 (by rwa [← pow_succ])
    · exact Nat.div_lt_of_lt_mul (by rwa [← pow_succ'])

end Padded

section Fields

/-- A part of a text of fixed layout: what stands before the number, and its
width. -/
structure Field where
  lead : List Char
  width : ℕ

def layout : List Field → List ℕ → List Char
  | f :: fs, v :: vs => f.lead ++ padded f.width v ++ layout fs vs
  | _, _ => []

def span : List Field → ℕ
  | [] => 0
  | f :: fs => f.lead.length + f.width + span fs

def Fits (fs : List Field) (vs : List ℕ) : Prop :=
  List.Forall₂ (fun f v ↦ v < 10 ^ f.width) fs vs

variable {fs : List Field} {vs vs' : List ℕ}

theorem layout_length (h : Fits fs vs) : (layout fs vs).length = span fs := by
  induction h with
  | nil => rfl
  | cons _ _ ih => rw [layout, List.length_append, List.length_append, padded_length, ih, span]

/-- Texts of one layout are ordered as the tuples of their numbers are. -/
theorem layout_lt_iff (h : Fits fs vs) (h' : Fits fs vs') :
    layout fs vs < layout fs vs' ↔ vs < vs' := by
  induction h generalizing vs' with
  | nil =>
    cases h'
    exact iff_of_false (lt_irrefl []) (lt_irrefl [])
  | cons hv _ ih =>
    cases h' with
    | cons hv' h' =>
      rw [layout, layout, List.append_assoc, List.append_assoc, append_lt_append_iff rfl,
        append_lt_append_iff (by simp), padded_lt_iff hv hv', padded_eq_iff hv hv', ih h',
        List.cons_lt_cons_iff]
      simp

theorem layout_eq_iff (h : Fits fs vs) (h' : Fits fs vs') :
    layout fs vs = layout fs vs' ↔ vs = vs' :=
  ⟨eq_of_lt_iff (layout_lt_iff h h') (layout_lt_iff h' h), fun h ↦ h ▸ rfl⟩

end Fields

end LowLatency.Library.Decimal
