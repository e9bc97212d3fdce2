import Mathlib

/-!
# Signed machine integers

A signed 64-bit operation is undefined when its exact result does not fit, so `int64?` of that
result is nothing then.  A conversion to 32 bits keeps the low bits: `toInt32` takes the residue
modulo `2 ^ 32` that lies between `-2 ^ 31` and `2 ^ 31`.
-/

namespace SignedWord

variable {x y : ℤ}

/-- `x` is a value of `int64_t`. -/
def InInt64 (x : ℤ) : Prop := -2 ^ 63 ≤ x ∧ x < 2 ^ 63

instance (x : ℤ) : Decidable (InInt64 x) := inferInstanceAs (Decidable (_ ∧ _))

/-- The result of an operation on `int64_t` whose exact result is `x`. -/
def int64? (x : ℤ) : Option ℤ := if InInt64 x then some x else none

/-- `static_cast<int>` of a wider integer. -/
def toInt32 (x : ℤ) : ℤ := x.bmod (2 ^ 32)

theorem int64?_eq_some : int64? x = some y ↔ InInt64 x ∧ x = y := by
  unfold int64?
  split
  · rename_i h
    simp [h]
  · rename_i h
    simp [h]

theorem toInt32_range (x : ℤ) : -2 ^ 31 ≤ toInt32 x ∧ toInt32 x < 2 ^ 31 := by
  unfold toInt32
  constructor
  · have hlow := Int.le_bmod (x := x) (m := 2 ^ 32) (by norm_num)
    norm_num at hlow ⊢
    exact hlow
  · have hhigh := Int.bmod_lt (x := x) (m := 2 ^ 32) (by norm_num)
    norm_num at hhigh ⊢
    exact hhigh

/-- The low 31 bits and the sign. -/
theorem toInt32_eq (x : ℤ) :
    toInt32 x = if x % 2 ^ 32 < 2 ^ 31 then x % 2 ^ 32 else x % 2 ^ 32 - 2 ^ 32 := by
  unfold toInt32 Int.bmod
  norm_num

theorem toInt32_nonneg_iff : 0 ≤ toInt32 x ↔ x % 2 ^ 32 < 2 ^ 31 := by
  have hmod : 0 ≤ x % 2 ^ 32 := Int.emod_nonneg x (by norm_num)
  have hlt : x % 2 ^ 32 < 2 ^ 32 := Int.emod_lt_of_pos x (by norm_num)
  rw [toInt32_eq]
  split
  · rename_i hlow
    exact iff_of_true hmod hlow
  · rename_i hhigh
    exact iff_of_false (by omega) hhigh

/-- A conversion does not make a value larger. -/
theorem toInt32_le (hx : 0 ≤ x) : toInt32 x ≤ x := by
  have hle : x % 2 ^ 32 ≤ x := by omega
  rw [toInt32_eq]
  split <;> omega

end SignedWord
