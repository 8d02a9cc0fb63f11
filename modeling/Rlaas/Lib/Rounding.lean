import Mathlib.Data.Int.Log
import Mathlib.Data.Rat.Floor
import Mathlib.Algebra.Order.Field.Power
import Mathlib.Tactic.Linarith
import Mathlib.Tactic.Positivity
import Mathlib.Tactic.FieldSimp
import Mathlib.Tactic.NormNum

/-! Rounding of rationals to the nearest value of a binary floating-point
format with ties to even: 53 significant bits and least exponent -1074, as in
IEEE 754 binary64. Overflow is left to the caller, who sees the rounded value
before it is limited to the format's range. -/

set_option autoImplicit false

namespace Rounding

variable {q : ℚ}

/-- The integer nearest to a rational, the even one of two. -/
def nearestEven (q : ℚ) : ℤ :=
  if q - ⌊q⌋ < 1 / 2 then ⌊q⌋
  else if 1 / 2 < q - ⌊q⌋ then ⌊q⌋ + 1
  else if ⌊q⌋ % 2 = 0 then ⌊q⌋
  else ⌊q⌋ + 1

/-- The exponent of the last significant bit at the magnitude of `q`. -/
def quantum (q : ℚ) : ℤ :=
  max (Int.log 2 |q| - 52) (-1074)

def round64 (q : ℚ) : ℚ :=
  nearestEven (q / 2 ^ quantum q) * 2 ^ quantum q

theorem nearestEven_intCast (n : ℤ) : nearestEven n = n := by
  simp [nearestEven]

theorem nearestEven_bounds (q : ℚ) : ⌊q⌋ ≤ nearestEven q ∧ nearestEven q ≤ ⌊q⌋ + 1 := by
  unfold nearestEven
  split_ifs <;> omega

theorem nearestEven_mono {left right : ℚ} (ordered : left ≤ right) :
    nearestEven left ≤ nearestEven right := by
  have floors : ⌊left⌋ ≤ ⌊right⌋ := Int.floor_le_floor ordered
  rcases lt_or_eq_of_le floors with below | same
  · have upper := (nearestEven_bounds left).2
    have lower := (nearestEven_bounds right).1
    omega
  · -- With equal floors the fractional parts are ordered, and so are the branches.
    unfold nearestEven
    rw [same]
    have parts : left - (⌊right⌋ : ℚ) ≤ right - ⌊right⌋ := by linarith
    split_ifs <;> first | omega | (exfalso; linarith)

private theorem two_zpow_pos (e : ℤ) : (0 : ℚ) < 2 ^ e := by positivity

theorem quantum_mono {left right : ℚ} (positive : 0 < left) (ordered : left ≤ right) :
    quantum left ≤ quantum right := by
  have logs : Int.log 2 |left| ≤ Int.log 2 |right| := by
    rw [abs_of_pos positive, abs_of_pos (lt_of_lt_of_le positive ordered)]
    exact Int.log_mono_right positive ordered
  unfold quantum
  omega

theorem lt_zpow_quantum (positive : 0 < q) : q < 2 ^ (quantum q + 53) := by
  have bound := Int.lt_zpow_succ_log_self (b := 2) (by norm_num) q
  rw [Nat.cast_ofNat] at bound
  refine lt_of_lt_of_le bound (zpow_le_zpow_right₀ (by norm_num) ?_)
  unfold quantum
  rw [abs_of_pos positive]
  omega

theorem zpow_quantum_le (positive : 0 < q) (normal : -1074 < quantum q) :
    2 ^ (quantum q + 52) ≤ q := by
  have bound := Int.zpow_log_le_self (b := 2) (by norm_num) positive
  rw [Nat.cast_ofNat] at bound
  refine le_trans (zpow_le_zpow_right₀ (by norm_num) ?_) bound
  unfold quantum at normal ⊢
  rw [abs_of_pos positive] at *
  omega

/-- A multiple of a power of two that is not finer than its quantum is kept. -/
theorem round64_exact {m k : ℤ} (shape : q = m * 2 ^ k) (coarse : quantum q ≤ k) :
    round64 q = q := by
  obtain ⟨extra, sum⟩ : ∃ extra : ℕ, k = quantum q + extra := ⟨(k - quantum q).toNat, by omega⟩
  have scaled : q / 2 ^ quantum q = ((m * 2 ^ extra : ℤ) : ℚ) := by
    rw [div_eq_iff (ne_of_gt (two_zpow_pos _))]
    push_cast
    rw [mul_assoc, ← zpow_natCast (2 : ℚ) extra, ← zpow_add₀ (by norm_num), add_comm, ← sum]
    exact shape
  unfold round64
  rw [scaled, nearestEven_intCast, ← scaled, div_mul_cancel₀ _ (ne_of_gt (two_zpow_pos _))]

@[simp] theorem round64_zero : round64 0 = 0 := by
  simp [round64, nearestEven]

/-- Rounding does not pass a multiple of the quantum. -/
private theorem round64_le_of_le {m : ℤ} (bound : q ≤ m * 2 ^ quantum q) :
    round64 q ≤ m * 2 ^ quantum q := by
  have rounded := nearestEven_mono ((div_le_iff₀ (two_zpow_pos (quantum q))).mpr bound)
  rw [nearestEven_intCast] at rounded
  refine mul_le_mul_of_nonneg_right ?_ (le_of_lt (two_zpow_pos _))
  exact_mod_cast rounded

private theorem le_round64_of_le {m : ℤ} (bound : m * 2 ^ quantum q ≤ q) :
    m * 2 ^ quantum q ≤ round64 q := by
  have rounded := nearestEven_mono ((le_div_iff₀ (two_zpow_pos (quantum q))).mpr bound)
  rw [nearestEven_intCast] at rounded
  refine mul_le_mul_of_nonneg_right ?_ (le_of_lt (two_zpow_pos _))
  exact_mod_cast rounded

private theorem round64_le_top (positive : 0 < q) :
    round64 q ≤ 2 ^ (quantum q + 53) := by
  have bound := le_of_lt (lt_zpow_quantum positive)
  rw [add_comm, zpow_add₀ (by norm_num)] at bound ⊢
  exact_mod_cast round64_le_of_le (q := q) (m := 2 ^ (53 : ℕ)) (by exact_mod_cast bound)

private theorem bottom_le_round64 (positive : 0 < q) (normal : -1074 < quantum q) :
    2 ^ (quantum q + 52) ≤ round64 q := by
  have bound := zpow_quantum_le positive normal
  rw [add_comm, zpow_add₀ (by norm_num)] at bound ⊢
  exact_mod_cast le_round64_of_le (q := q) (m := 2 ^ (52 : ℕ)) (by exact_mod_cast bound)

theorem round64_nonneg (nonneg : 0 ≤ q) : 0 ≤ round64 q := by
  have bound := le_round64_of_le (q := q) (m := 0) (by simpa using nonneg)
  rwa [Int.cast_zero, zero_mul] at bound

theorem round64_nonpos (nonpos : q ≤ 0) : round64 q ≤ 0 := by
  have bound := round64_le_of_le (q := q) (m := 0) (by simpa using nonpos)
  rwa [Int.cast_zero, zero_mul] at bound

theorem round64_mono {left right : ℚ} (nonneg : 0 ≤ left) (ordered : left ≤ right) :
    round64 left ≤ round64 right := by
  rcases eq_or_lt_of_le nonneg with rfl | positive
  · rw [round64_zero]
    exact round64_nonneg ordered
  · rcases eq_or_lt_of_le (quantum_mono positive ordered) with same | finer
    · unfold round64
      rw [same]
      refine mul_le_mul_of_nonneg_right ?_ (le_of_lt (two_zpow_pos _))
      exact_mod_cast nearestEven_mono
        (div_le_div_of_nonneg_right ordered (le_of_lt (two_zpow_pos _)))
    · -- A coarser quantum separates the two by a power of two that both can hold.
      have normal : -1074 < quantum right := lt_of_le_of_lt (le_max_right _ _) finer
      calc round64 left ≤ 2 ^ (quantum left + 53) := round64_le_top positive
        _ ≤ 2 ^ (quantum right + 52) := zpow_le_zpow_right₀ (by norm_num) (by omega)
        _ ≤ round64 right := bottom_le_round64 (lt_of_lt_of_le positive ordered) normal

theorem round64_idem (nonneg : 0 ≤ q) : round64 (round64 q) = round64 q := by
  rcases eq_or_lt_of_le nonneg with rfl | positive
  · simp
  · rcases eq_or_lt_of_le (round64_nonneg nonneg) with zero | rounded
    · rw [← zero, round64_zero]
    · rcases eq_or_lt_of_le (round64_le_top positive) with top | below
      · refine round64_exact (m := 1) (k := quantum q + 53) (by rw [Int.cast_one, one_mul]; exact top) ?_
        have least : -1074 ≤ quantum q := le_max_right _ _
        unfold quantum at least ⊢
        rw [abs_of_pos rounded, top]
        have log : Int.log 2 ((2 : ℚ) ^ (quantum q + 53)) = quantum q + 53 := by
          exact_mod_cast Int.log_zpow (R := ℚ) (b := 2) (by norm_num) (quantum q + 53)
        rw [log]
        unfold quantum
        omega
      · refine round64_exact (k := quantum q) rfl ?_
        have least : -1074 ≤ quantum q := le_max_right _ _
        have log : Int.log 2 (round64 q) < quantum q + 53 := by
          have bound : round64 q < ((2 : ℕ) : ℚ) ^ (quantum q + 53) := by
            rw [Nat.cast_ofNat]
            exact below
          exact (Int.lt_zpow_iff_log_lt (by norm_num) rounded).mp bound
        conv_lhs => unfold quantum
        rw [abs_of_pos rounded]
        omega

theorem round64_intCast {n : ℤ} (nonneg : 0 ≤ n) (small : n ≤ 2 ^ 53) :
    round64 (n : ℚ) = n := by
  rcases eq_or_lt_of_le nonneg with rfl | positive
  · simp
  · have positiveCast : (0 : ℚ) < n := by exact_mod_cast positive
    rcases eq_or_lt_of_le small with top | below
    · subst top
      refine round64_exact (m := 1) (k := 53) (by norm_num) ?_
      have log : Int.log 2 (((2 ^ 53 : ℤ) : ℚ)) = 53 := by
        have power := Int.log_zpow (R := ℚ) (b := 2) (by norm_num) 53
        rw [← power]
        norm_num
      unfold quantum
      rw [abs_of_pos positiveCast, log]
      norm_num
    · refine round64_exact (m := n) (k := 0) (by simp) ?_
      have log : Int.log 2 (n : ℚ) < 53 := by
        have bound : (n : ℚ) < ((2 : ℕ) : ℚ) ^ (53 : ℤ) := by
          norm_num
          exact_mod_cast below
        exact (Int.lt_zpow_iff_log_lt (by norm_num) positiveCast).mp bound
      unfold quantum
      rw [abs_of_pos positiveCast]
      omega

theorem round64_two_pow_63 : round64 (2 ^ 63) = 2 ^ 63 := by
  have positive : (0 : ℚ) < 2 ^ 63 := by norm_num
  refine round64_exact (m := 1) (k := 63) (by norm_num) ?_
  have log : Int.log 2 (2 ^ 63 : ℚ) = 63 := by
    exact_mod_cast Int.log_zpow (R := ℚ) (b := 2) (by norm_num) 63
  unfold quantum
  rw [abs_of_pos positive, log]
  norm_num

end Rounding
