import Mathlib

/-!
# Filling a number with ones

The usual way to the next power of two: each bit of a number is copied to the bits below it, twice
as far in each step, until all bits below the highest one are set.
-/

/-- `y` has the bits of `x`, each of them also copied to the `w - 1` places below it. -/
def Smears (x w y : Nat) : Prop := ∀ j, y.testBit j = true ↔ ∃ i < w, x.testBit (j + i) = true

namespace Smears

variable {x w y : Nat}

theorem refl (x : Nat) : Smears x 1 x := fun j => by simp

theorem double (h : Smears x w y) : Smears x (w + w) (y ||| y >>> w) := by
  intro j
  simp only [Nat.testBit_or, Nat.testBit_shiftRight, Bool.or_eq_true, h j, h (w + j)]
  constructor
  · rintro (⟨i, hi, hx⟩ | ⟨i, hi, hx⟩)
    · exact ⟨i, by omega, hx⟩
    · exact ⟨w + i, by omega, by rwa [← Nat.add_assoc, Nat.add_comm j]⟩
  · rintro ⟨i, hi, hx⟩
    by_cases hw : i < w
    · exact .inl ⟨i, hw, hx⟩
    · have hplace : w + j + (i - w) = j + i := by omega
      exact .inr ⟨i - w, by omega, by rwa [hplace]⟩

theorem eq_two_pow_size (h : Smears x w y) (hx : x < 2 ^ w) : y = 2 ^ x.size - 1 := by
  apply Nat.eq_of_testBit_eq
  intro j
  rw [Nat.testBit_two_pow_sub_one, Bool.eq_iff_iff, h j, decide_eq_true_iff, Nat.lt_size]
  constructor
  · rintro ⟨i, -, hi⟩
    exact (Nat.pow_le_pow_right Nat.two_pos (Nat.le_add_right j i)).trans
      (Nat.ge_two_pow_of_testBit hi)
  · intro hj
    have hne : x ≠ 0 := by
      rintro rfl
      simp at hj
    have hle : j ≤ x.log2 := (Nat.le_log2 hne).mpr hj
    have hlt : x.log2 < w := (Nat.log2_lt hne).mpr hx
    exact ⟨x.log2 - j, by omega, by rw [Nat.add_sub_cancel' hle, Nat.testBit_log2 hne]⟩

end Smears
