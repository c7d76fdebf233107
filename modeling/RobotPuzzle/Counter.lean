/-!
# Bounded numbers

Steps, costs and budgets are natural numbers, and written numbers are integers. Where a counter of
32 bits keeps a number, it stops at its largest value instead of going on. An integer that is to
fit into 64 bits is refused if it does not.

## Main definitions

* `counterLimit` — the largest value of a counter
* `saturate` — what a counter shows of a number
* `FitsWord` — an integer of 64 bits with a sign
-/

namespace RobotPuzzle

/-- The largest value of a counter of 32 bits. -/
def counterLimit : Nat := 4294967295

/-- What a counter shows of a number. -/
def saturate (n : Nat) : Nat := min n counterLimit

/-- The integer fits into 64 bits with a sign. -/
def FitsWord (n : Int) : Prop := -9223372036854775808 ≤ n ∧ n ≤ 9223372036854775807

instance (n : Int) : Decidable (FitsWord n) :=
  inferInstanceAs (Decidable (-9223372036854775808 ≤ n ∧ n ≤ 9223372036854775807))

theorem saturate_le (n : Nat) : saturate n ≤ counterLimit := Nat.min_le_right _ _

theorem saturate_eq_self {n : Nat} (h : n ≤ counterLimit) : saturate n = n := Nat.min_eq_left h

theorem saturate_add_saturate (m n : Nat) : saturate (m + saturate n) = saturate (m + n) := by
  unfold saturate
  omega

theorem saturate_saturate_add (m n k : Nat) :
    saturate (saturate (m + n) + k) = saturate (m + (n + k)) := by
  unfold saturate
  omega

theorem saturate_max (m n : Nat) : max (saturate m) (saturate n) = saturate (max m n) := by
  unfold saturate
  omega

theorem saturate_mul_saturate (m n : Nat) : saturate (m * saturate n) = saturate (m * n) := by
  rcases Nat.le_total n counterLimit with h | h
  · rw [saturate_eq_self h]
  · rcases Nat.eq_zero_or_pos m with rfl | hm
    · rw [Nat.zero_mul, Nat.zero_mul]
    · -- both products are beyond the limit
      have hlimit : counterLimit ≤ m * counterLimit := Nat.le_mul_of_pos_left _ hm
      have hmul : m * counterLimit ≤ m * n := Nat.mul_le_mul_left m h
      have hfull : saturate n = counterLimit := Nat.min_eq_right h
      rw [hfull]
      unfold saturate
      omega

end RobotPuzzle
