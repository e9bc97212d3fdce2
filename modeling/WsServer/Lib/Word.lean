import Mathlib

/-!
# Sizes of 64 bits

Arithmetic on `size_t` that notices when it wraps around: `add?` and `sub?` give the
sum and the difference when they are the exact ones, and nothing otherwise.
-/

namespace Word

/-- The number of values of `size_t`. -/
def sizeRange : ℕ := 2 ^ 64

/-- `a + b`, unless it wraps around. -/
def add? (a b : ℕ) : Option ℕ := if a + b < sizeRange then some (a + b) else none

/-- `a - b`, unless it wraps around. -/
def sub? (a b : ℕ) : Option ℕ := if b ≤ a then some (a - b) else none

theorem add?_of_lt {a b : ℕ} (h : a + b < sizeRange) : add? a b = some (a + b) := if_pos h

theorem sub?_of_le {a b : ℕ} (h : b ≤ a) : sub? a b = some (a - b) := if_pos h

end Word
