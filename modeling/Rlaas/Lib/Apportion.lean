import Mathlib.Algebra.BigOperators.Group.List.Basic
import Mathlib.Algebra.Order.BigOperators.Group.List
import Mathlib.Data.Int.Basic
import Mathlib.Tactic.Linarith
import Mathlib.Tactic.Ring

/-! A total split in proportion to weights, every share rounded down, with what is
left over given to one more weight. -/

set_option autoImplicit false

namespace Apportion

/-- The rounded shares of some of the weights. -/
def floors (total weight : Int) (weights : List Int) : List Int :=
  weights.map fun w => total * w / weight

variable (total : Int) {weight : Int}

@[simp] theorem floors_cons (w : Int) (weights : List Int) :
    floors total weight (w :: weights) = total * w / weight :: floors total weight weights := rfl

/-- Euclidean division, summed over the weights. -/
theorem floors_bounds (positive : 0 < weight) (weights : List Int) :
    weight * (floors total weight weights).sum ≤ total * weights.sum ∧
      total * weights.sum ≤
        weight * (floors total weight weights).sum + weights.length * (weight - 1) := by
  induction weights with
  | nil => simp [floors]
  | cons w weights ih =>
      have division := Int.mul_ediv_add_emod (total * w) weight
      have low := Int.emod_nonneg (total * w) positive.ne'
      have high := Int.emod_lt_of_pos (total * w) positive
      simp only [floors_cons, List.sum_cons, List.length_cons, Nat.cast_add, Nat.cast_one, mul_add,
        add_mul, one_mul]
      constructor <;> linarith [ih.1, ih.2]

/-- The weight that takes the rest gets at least its own rounded share, and at most one
unit more for every other weight. -/
theorem rest_bounds (positive : 0 < weight) {weights : List Int} {last : Int}
    (whole : weights.sum + last = weight) :
    total * last / weight ≤ total - (floors total weight weights).sum ∧
      total - (floors total weight weights).sum ≤ total * last / weight + weights.length := by
  obtain ⟨low, high⟩ := floors_bounds total positive weights
  have parts : total * weights.sum + total * last = weight * total := by
    rw [← mul_add, whole, mul_comm]
  have rest := mul_sub weight total (floors total weight weights).sum
  constructor
  · refine Int.ediv_le_of_le_mul positive ?_
    rw [mul_comm]
    linarith
  · refine Int.le_of_lt_add_one (lt_of_mul_lt_mul_left ?_ positive.le)
    have room : weight * (total * last / weight + weights.length + 1) =
        weight * (total * last / weight) + weights.length * (weight - 1) + weights.length +
          weight := by
      ring
    have count : (0 : Int) ≤ weights.length := Int.natCast_nonneg _
    linarith [Int.lt_mul_ediv_self_add (x := total * last) positive]

end Apportion
