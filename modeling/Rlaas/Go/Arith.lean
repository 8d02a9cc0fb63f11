import Rlaas.Lib.Rounding

/-! Go's integer and floating-point arithmetic. Every operation of the code that
can overflow or round is written with the operations of an `Arith`, so that the
same definitions are read with exact numbers or with the machine's. -/

set_option autoImplicit false

namespace Rlaas.Go

/-- A `float64`. The sign of zero is not kept: the code never divides by a
value that can be a negative zero, and otherwise only the printed bounds of a
histogram tell the two apart, which are positive there. -/
inductive GoFloat where
  | nan
  | inf (negative : Bool)
  | fin (value : ℚ)
  deriving DecidableEq

/-- How integer results are brought back into `int64`, how real results are
rounded to `float64`, and how a `float64` is converted to `int64`. -/
structure Arith where
  wrap : Int → Int
  round : ℚ → GoFloat
  toInt : GoFloat → Int

def wrapInt64 (n : Int) : Int :=
  (n + 2 ^ 63) % 2 ^ 64 - 2 ^ 63

def IsInt64 (n : Int) : Prop := -2 ^ 63 ≤ n ∧ n < 2 ^ 63

instance (n : Int) : Decidable (IsInt64 n) := inferInstanceAs (Decidable (_ ∧ _))

def truncate (q : ℚ) : Int :=
  if 0 ≤ q then ⌊q⌋ else ⌈q⌉

/-- `int64(x)` on amd64, where an unrepresentable value becomes the least one. -/
def convertInt64 : GoFloat → Int
  | .fin q => if -2 ^ 63 ≤ truncate q ∧ truncate q < 2 ^ 63 then truncate q else -2 ^ 63
  | _ => -2 ^ 63

def roundFloat64 (q : ℚ) : GoFloat :=
  if 2 ^ 1024 ≤ |Rounding.round64 q| then .inf (decide (q < 0)) else .fin (Rounding.round64 q)

def Arith.exact : Arith where
  wrap := id
  round := .fin
  toInt
    | .fin q => truncate q
    | _ => -2 ^ 63

def Arith.machine : Arith where
  wrap := wrapInt64
  round := roundFloat64
  toInt := convertInt64

theorem truncate_intCast (n : Int) : truncate (n : ℚ) = n := by
  unfold truncate
  split <;> simp

theorem truncate_of_nonneg {q : ℚ} (nonneg : 0 ≤ q) : truncate q = ⌊q⌋ := if_pos nonneg

@[simp] theorem exact_toInt (q : ℚ) : Arith.exact.toInt (.fin q) = truncate q := rfl

@[simp] theorem exact_wrap (n : Int) : Arith.exact.wrap n = n := rfl

@[simp] theorem exact_round (q : ℚ) : Arith.exact.round q = .fin q := rfl

@[simp] theorem machine_wrap (n : Int) : Arith.machine.wrap n = wrapInt64 n := rfl

@[simp] theorem machine_round (q : ℚ) : Arith.machine.round q = roundFloat64 q := by
  rw [Arith.machine]

theorem wrapInt64_of_isInt64 {n : Int} (range : IsInt64 n) : wrapInt64 n = n := by
  unfold wrapInt64 IsInt64 at *
  omega

theorem isInt64_wrapInt64 (n : Int) : IsInt64 (wrapInt64 n) := by
  unfold IsInt64 wrapInt64
  omega

theorem wrapInt64_le (n : Int) : wrapInt64 n ≤ 2 ^ 63 - 1 := by
  unfold wrapInt64
  omega

theorem wrapInt64_le_sub {n : Int} (large : 2 ^ 63 ≤ n) : wrapInt64 n ≤ n - 2 ^ 64 := by
  unfold wrapInt64
  omega

section Float64

open Rounding

theorem roundFloat64_of_le {q : ℚ} (nonneg : 0 ≤ q) (small : q ≤ 2 ^ 63) :
    roundFloat64 q = .fin (round64 q) := by
  have bound := round64_mono nonneg small
  rw [round64_two_pow_63] at bound
  have finite : ¬2 ^ 1024 ≤ |round64 q| := by
    rw [abs_of_nonneg (round64_nonneg nonneg), not_le]
    exact lt_of_le_of_lt bound (pow_lt_pow_right₀ (by norm_num) (by norm_num))
  rw [roundFloat64, if_neg finite]

theorem roundFloat64_cases_of_nonpos {q : ℚ} (nonpos : q ≤ 0) :
    roundFloat64 q = .inf true ∨ roundFloat64 q = .fin (round64 q) := by
  unfold roundFloat64
  split
  · next infinite =>
      have nonzero : q ≠ 0 := by
        rintro rfl
        rw [round64_zero, abs_zero] at infinite
        exact absurd infinite (not_le.mpr (by positivity))
      exact .inl (by simp [lt_of_le_of_ne nonpos nonzero])
  · exact .inr rfl

theorem roundFloat64_cases {q : ℚ} (nonneg : 0 ≤ q) :
    roundFloat64 q = .inf false ∨ roundFloat64 q = .fin (round64 q) := by
  unfold roundFloat64
  split
  · exact .inl (by simp [not_lt.mpr nonneg])
  · exact .inr rfl

end Float64

namespace GoFloat

def neg : GoFloat → GoFloat
  | .nan => .nan
  | .inf negative => .inf !negative
  | .fin q => .fin (-q)

def isNegative : GoFloat → Bool
  | .nan => false
  | .inf negative => negative
  | .fin q => decide (q < 0)

def isZero : GoFloat → Bool
  | .fin q => decide (q = 0)
  | _ => false

/-- `float64(n)`. -/
def ofInt (A : Arith) (n : Int) : GoFloat := A.round n

def add (A : Arith) : GoFloat → GoFloat → GoFloat
  | .nan, _ => .nan
  | _, .nan => .nan
  | .inf left, .inf right => if left = right then .inf left else .nan
  | .inf left, .fin _ => .inf left
  | .fin _, .inf right => .inf right
  | .fin left, .fin right => A.round (left + right)

def sub (A : Arith) (left right : GoFloat) : GoFloat := add A left right.neg

def mul (A : Arith) (left right : GoFloat) : GoFloat :=
  match left, right with
  | .nan, _ => .nan
  | _, .nan => .nan
  | .fin left, .fin right => A.round (left * right)
  | _, _ =>
      if left.isZero || right.isZero then .nan
      else .inf (left.isNegative != right.isNegative)

def div (A : Arith) (left right : GoFloat) : GoFloat :=
  match left, right with
  | .nan, _ => .nan
  | _, .nan => .nan
  | .inf _, .inf _ => .nan
  | .inf negative, .fin q => .inf (negative != decide (q < 0))
  | .fin _, .inf _ => .fin 0
  | .fin left, .fin right =>
      if right = 0 then (if left = 0 then .nan else .inf (decide (left < 0)))
      else A.round (left / right)

def lt : GoFloat → GoFloat → Bool
  | .nan, _ => false
  | _, .nan => false
  | .inf left, .inf right => left && !right
  | .inf left, .fin _ => left
  | .fin _, .inf right => !right
  | .fin left, .fin right => decide (left < right)

def le : GoFloat → GoFloat → Bool
  | .nan, _ => false
  | _, .nan => false
  | .inf left, .inf right => left || !right
  | .inf left, .fin _ => left
  | .fin _, .inf right => !right
  | .fin left, .fin right => decide (left ≤ right)

def min (left right : GoFloat) : GoFloat :=
  if left = .inf true || right = .inf true then .inf true
  else if left = .nan || right = .nan then .nan
  else if left.lt right then left else right

def max (left right : GoFloat) : GoFloat :=
  if left = .inf false || right = .inf false then .inf false
  else if left = .nan || right = .nan then .nan
  else if right.lt left then left else right

/-- `math.Round`, half away from zero. -/
def roundHalfAway (q : ℚ) : Int :=
  if 0 ≤ q then ⌊q + 1 / 2⌋ else ⌈q - 1 / 2⌉

def round : GoFloat → GoFloat
  | .fin q => .fin (roundHalfAway q)
  | other => other

/-- `math.Ceil`. -/
def ceil : GoFloat → GoFloat
  | .fin q => .fin ⌈q⌉
  | other => other

theorem ofInt_machine {n : Int} (nonneg : 0 ≤ n) (small : n ≤ 2 ^ 63) :
    ofInt Arith.machine n = .fin (Rounding.round64 n) :=
  roundFloat64_of_le (by exact_mod_cast nonneg) (by exact_mod_cast small)

@[simp] theorem ofInt_exact (n : Int) : ofInt Arith.exact n = .fin n := rfl

@[simp] theorem add_exact (left right : ℚ) :
    add Arith.exact (.fin left) (.fin right) = .fin (left + right) := rfl

@[simp] theorem sub_exact (left right : ℚ) :
    sub Arith.exact (.fin left) (.fin right) = .fin (left - right) := by
  simp [sub, neg, sub_eq_add_neg]

@[simp] theorem mul_exact (left right : ℚ) :
    mul Arith.exact (.fin left) (.fin right) = .fin (left * right) := rfl

theorem div_exact (left : ℚ) {right : ℚ} (nonzero : right ≠ 0) :
    div Arith.exact (.fin left) (.fin right) = .fin (left / right) := by
  simp [div, nonzero]

@[simp] theorem lt_fin (left right : ℚ) :
    lt (.fin left) (.fin right) = decide (left < right) := rfl

@[simp] theorem le_fin (left right : ℚ) :
    le (.fin left) (.fin right) = decide (left ≤ right) := rfl

@[simp] theorem min_fin (left right : ℚ) :
    min (.fin left) (.fin right) = .fin (Min.min left right) := by
  by_cases below : left < right
  · simp [min, below, min_eq_left (le_of_lt below)]
  · simp [min, below, min_eq_right (not_lt.mp below)]

@[simp] theorem max_fin (left right : ℚ) :
    max (.fin left) (.fin right) = .fin (Max.max left right) := by
  by_cases below : right < left
  · simp [max, below, max_eq_left (le_of_lt below)]
  · simp [max, below, max_eq_right (not_lt.mp below)]

@[simp] theorem ceil_fin (q : ℚ) : ceil (.fin q) = .fin ⌈q⌉ := rfl

@[simp] theorem round_fin (q : ℚ) : round (.fin q) = .fin (roundHalfAway q) := rfl

theorem roundHalfAway_intCast (whole : Int) : roundHalfAway (whole : ℚ) = whole := by
  unfold roundHalfAway
  split
  · exact Int.floor_eq_iff.mpr ⟨by linarith, by linarith⟩
  · exact Int.ceil_eq_iff.mpr ⟨by linarith, by linarith⟩

theorem roundHalfAway_bounds (q : ℚ) :
    (roundHalfAway q : ℚ) ≤ q + 1 / 2 ∧ q - 1 / 2 ≤ roundHalfAway q := by
  unfold roundHalfAway
  split
  · have low := Int.floor_le (q + 1 / 2)
    have high := Int.lt_floor_add_one (q + 1 / 2)
    constructor <;> linarith
  · have low := Int.le_ceil (q - 1 / 2)
    have high := Int.ceil_lt_add_one (q - 1 / 2)
    constructor <;> linarith

end GoFloat

end Rlaas.Go
