import Mathlib

/-!
# Turns

Turns go round `n` places by a counter that wraps around at `wrap`.  Up to then every place has had
as many turns as every other, or one more; each time the counter starts again a round may be cut
short, which is one more turn for some places (`turns_le`).
-/

namespace RoundRobin

variable {wrap n j j' k : ℕ}

/-- How many of the first `k` turns fall to place `j`. -/
def turns (wrap n j k : ℕ) : ℕ := Nat.count (fun i => i % wrap % n = j) k

@[simp] theorem turns_zero (wrap n j : ℕ) : turns wrap n j 0 = 0 := Nat.count_zero _

theorem turns_succ (wrap n j k : ℕ) :
    turns wrap n j (k + 1) = turns wrap n j k + if k % wrap % n = j then 1 else 0 :=
  Nat.count_succ _ k

/-- Before the counter wraps around. -/
theorem turns_of_le (hle : k ≤ wrap) (hj : j < n) :
    turns wrap n j k = k / n + if j < k % n then 1 else 0 := by
  have hsame : turns wrap n j k = Nat.count (· ≡ j [MOD n]) k := by
    rw [turns, Nat.count_eq_card_filter_range, Nat.count_eq_card_filter_range]
    congr 1
    refine Finset.filter_congr fun i hi => ?_
    rw [Nat.mod_eq_of_lt ((Finset.mem_range.mp hi).trans_le hle), Nat.ModEq, Nat.mod_eq_of_lt hj]
  rw [hsame, Nat.count_modEq_card _ (Nat.zero_lt_of_lt hj), Nat.mod_eq_of_lt hj]

theorem turns_le_succ (hle : k ≤ wrap) (hj : j < n) (hj' : j' < n) :
    turns wrap n j k ≤ turns wrap n j' k + 1 := by
  rw [turns_of_le hle hj, turns_of_le hle hj']
  split_ifs <;> omega

/-- The counter begins again. -/
theorem turns_add_mul (wrap n j q k : ℕ) :
    turns wrap n j (wrap * q + k) = q * turns wrap n j wrap + turns wrap n j k := by
  induction q with
  | zero => rw [Nat.mul_zero, Nat.zero_add, Nat.zero_mul, Nat.zero_add]
  | succ q ih =>
      have hperiod : turns wrap n j (wrap + (wrap * q + k)) =
          turns wrap n j wrap + turns wrap n j (wrap * q + k) := by
        rw [turns, Nat.count_add]
        simp only [Nat.add_mod_left]
        rfl
      rw [show wrap * (q + 1) + k = wrap + (wrap * q + k) by ring, hperiod, ih]
      ring

/-- No place has more turns than another, but for one, and one for each time that the counter has
wrapped around. -/
theorem turns_le (hwrap : 0 < wrap) (hj : j < n) (hj' : j' < n) :
    turns wrap n j k ≤ turns wrap n j' k + (k / wrap + 1) := by
  have hfull := turns_le_succ (le_refl wrap) hj hj'
  have hrest := turns_le_succ (Nat.mod_lt k hwrap).le hj hj'
  have hsplit (j : ℕ) :
      turns wrap n j k = k / wrap * turns wrap n j wrap + turns wrap n j (k % wrap) := by
    conv_lhs => rw [← Nat.div_add_mod k wrap]
    exact turns_add_mul wrap n j _ _
  calc turns wrap n j k = k / wrap * turns wrap n j wrap + turns wrap n j (k % wrap) := hsplit j
    _ ≤ k / wrap * (turns wrap n j' wrap + 1) + (turns wrap n j' (k % wrap) + 1) :=
        Nat.add_le_add (Nat.mul_le_mul_left _ hfull) hrest
    _ = turns wrap n j' k + (k / wrap + 1) := by
        rw [hsplit j']
        ring

end RoundRobin
