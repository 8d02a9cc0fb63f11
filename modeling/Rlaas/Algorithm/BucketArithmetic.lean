import Rlaas.Algorithm.Evaluators

/-! The two bucket algorithms in exact arithmetic: what a call makes of the level
and the time it has read. -/

set_option autoImplicit false

namespace Rlaas.Algorithm

open Go Model Store

/-- The seconds between two readings of the clock, none if it ran backwards. -/
def elapsed (since now : Int) : ℚ := max 0 (((now - since : Int) : ℚ) / 1000000000)

theorem elapsed_nonneg (since now : Int) : 0 ≤ elapsed since now := le_max_left _ _

theorem elapsed_of_le {since now : Int} (ordered : since ≤ now) :
    elapsed since now = ((now - since : Int) : ℚ) / 1000000000 := by
  have passed : (0 : ℚ) ≤ ((now - since : Int) : ℚ) := by
    exact_mod_cast sub_nonneg.mpr ordered
  exact max_eq_right (by positivity)

theorem elapsed_self (now : Int) : elapsed now now = 0 := by
  rw [elapsed_of_le (le_refl now), sub_self, Int.cast_zero, zero_div]

theorem elapsed_exact (since now : Int) :
    (if (GoFloat.div .exact (GoFloat.ofInt .exact (Arith.exact.wrap (now - since)))
        (GoFloat.ofInt .exact second)).lt (.fin 0) then GoFloat.fin 0
      else GoFloat.div .exact (GoFloat.ofInt .exact (Arith.exact.wrap (now - since)))
        (GoFloat.ofInt .exact second)) = .fin (elapsed since now) := by
  have scale : GoFloat.ofInt .exact second = .fin 1000000000 := by
    simp [second]
  simp only [scale, exact_wrap, GoFloat.ofInt_exact]
  rw [GoFloat.div_exact _ (by norm_num)]
  unfold elapsed
  by_cases negative : ((now - since : Int) : ℚ) / 1000000000 < 0
  · simp only [GoFloat.lt_fin, decide_eq_true negative, if_true, max_eq_left negative.le]
  · simp only [GoFloat.lt_fin, decide_eq_false negative, max_eq_right (not_lt.mp negative)]
    rfl

theorem milli_exact (stored : Int) :
    GoFloat.div .exact (GoFloat.ofInt .exact stored) (.fin 1000) =
      .fin (stored / 1000) := by
  rw [GoFloat.ofInt_exact, GoFloat.div_exact _ (by norm_num)]

/-- The wait that a call is told, in nanoseconds. -/
def waitNanos (amount rate : ℚ) : ℚ := amount / rate * 1000000000

theorem wait_exact (amount : ℚ) {rate : ℚ} (positive : 0 < rate) :
    Arith.exact.toInt (GoFloat.mul Arith.exact
        (GoFloat.div .exact (.fin amount) (.fin rate)) (GoFloat.ofInt .exact second)) =
      truncate (waitNanos amount rate) := by
  rw [GoFloat.div_exact _ (ne_of_gt positive)]
  simp [second, waitNanos]

namespace TokenBucket

theorem capacity_pos (cfg : AlgorithmConfig) : 0 < capacity cfg := by
  unfold capacity
  split
  · split <;> omega
  · omega

theorem refillRate_pos {cfg : AlgorithmConfig} {rate : ℚ}
    (refill : refillRate .exact cfg = .fin rate) : 0 < rate := by
  unfold refillRate at refill
  split at refill
  · simp only at refill
    split at refill
    · cases refill
      exact one_pos
    · next positive =>
        rw [refill] at positive
        simpa using positive
  · next positive =>
      rw [refill] at positive
      simpa using positive

/-- The tokens a call works with; a refill time of zero stands for a bucket not used yet. -/
def tokens (cfg : AlgorithmConfig) (rate : ℚ) (now level last : Int) : ℚ :=
  if last = 0 then capacity cfg
  else min (capacity cfg) (level / 1000 + elapsed last now * rate)

theorem tokens_le_capacity (cfg : AlgorithmConfig) (rate : ℚ) (now level last : Int) :
    tokens cfg rate now level last ≤ capacity cfg := by
  unfold tokens
  split
  · exact le_refl _
  · exact min_le_left _ _

theorem tokens_le_refilled {last : Int} (used : last ≠ 0) (cfg : AlgorithmConfig) (rate : ℚ)
    (now level : Int) :
    tokens cfg rate now level last ≤ level / 1000 + elapsed last now * rate := by
  rw [tokens, if_neg used]
  exact min_le_right _ _

section Exact

variable {policy : Policy} {cfg : AlgorithmConfig} {req : RequestContext} {rate : ℚ}
  {now level last : Int}

theorem curTokens_exact (refill : refillRate .exact cfg = .fin rate) (now level last : Int) :
    curTokens .exact cfg now level last = .fin (tokens cfg rate now level last) := by
  unfold curTokens tokens
  by_cases unset : last = 0
  · simp only [if_pos unset, elapsed_exact, elapsed_self, refill]
    simp only [GoFloat.ofInt_exact, GoFloat.mul_exact, GoFloat.add_exact, GoFloat.min_fin, zero_mul,
      add_zero, min_self]
  · simp only [if_neg unset, elapsed_exact, refill, milli_exact]
    simp only [GoFloat.ofInt_exact, GoFloat.mul_exact, GoFloat.add_exact, GoFloat.min_fin]

theorem plan_exact (refill : refillRate .exact policy.algorithm = .fin rate) :
    plan .exact policy req now level last =
      if tokens policy.algorithm rate now level last < cost req policy.algorithm then
        .refuse (truncate (waitNanos (cost req policy.algorithm -
            tokens policy.algorithm rate now level last) rate))
          (truncate (tokens policy.algorithm rate now level last))
      else
        .take (GoFloat.roundHalfAway
            ((tokens policy.algorithm rate now level last - cost req policy.algorithm) * 1000))
          { allowed := true
            action := .allow
            reason := "token_available"
            remaining := truncate
              (tokens policy.algorithm rate now level last - cost req policy.algorithm) } := by
  unfold plan
  simp only [curTokens_exact refill, GoFloat.ofInt_exact, GoFloat.lt_fin, GoFloat.sub_exact,
    GoFloat.mul_exact, GoFloat.round_fin, refill, exact_toInt, truncate_intCast, decide_eq_true_eq]
  split
  · have wait := wait_exact (cost req policy.algorithm -
      tokens policy.algorithm rate now level last) (refillRate_pos refill)
    rw [GoFloat.ofInt_exact] at wait
    rw [wait]
  · rfl

/-- What is taken out and what is left were there, up to the rounding of what is left. -/
theorem plan_take {taken : Int} {decision : Decision}
    (refill : refillRate .exact policy.algorithm = .fin rate)
    (planned : plan .exact policy req now level last = .take taken decision) :
    0 ≤ taken ∧ (cost req policy.algorithm : ℚ) + taken / 1000 ≤
      tokens policy.algorithm rate now level last + 1 / 2000 := by
  rw [plan_exact refill] at planned
  split at planned
  · cases planned
  · next enough =>
      have rest : 0 ≤ tokens policy.algorithm rate now level last - cost req policy.algorithm :=
        sub_nonneg.mpr (not_lt.mp enough)
      obtain ⟨above, _⟩ := GoFloat.roundHalfAway_bounds
        ((tokens policy.algorithm rate now level last - cost req policy.algorithm) * 1000)
      cases planned
      refine ⟨?_, by linarith⟩
      rw [GoFloat.roundHalfAway, if_pos (by positivity)]
      exact Int.floor_nonneg.mpr (by positivity)

end Exact

end TokenBucket

namespace LeakyBucket

/-- The level a call works with before it adds its cost. -/
def level (rate : ℚ) (now stored last : Int) : ℚ :=
  max 0 (stored / 1000 - (if last = 0 then 0 else elapsed last now) * rate)

theorem leakRate_pos {cfg : AlgorithmConfig} {rate : ℚ} (leaks : leakRate cfg = .fin rate) :
    0 < rate := by
  unfold leakRate at leaks
  split at leaks
  · cases leaks
    exact one_pos
  · next positive =>
      rw [leaks] at positive
      simpa using positive

section Exact

variable {policy : Policy} {cfg : AlgorithmConfig} {req : RequestContext} {rate : ℚ}
  {now stored last : Int}

theorem drainedLevel_exact (leaks : leakRate cfg = .fin rate) (now stored last : Int) :
    drainedLevel .exact cfg now stored last = .fin (level rate now stored last) := by
  unfold drainedLevel level
  by_cases unset : last = 0
  · simp only [if_pos unset, elapsed_exact, elapsed_self, leaks, milli_exact, GoFloat.mul_exact,
      GoFloat.sub_exact, GoFloat.max_fin]
  · simp only [if_neg unset, elapsed_exact, leaks, milli_exact, GoFloat.mul_exact,
      GoFloat.sub_exact, GoFloat.max_fin]

theorem plan_exact (leaks : leakRate policy.algorithm = .fin rate) :
    plan .exact policy req now stored last =
      if (effectiveLimit policy.algorithm : ℚ) <
          level rate now stored last + cost req policy.algorithm then
        .refuse (truncate (waitNanos (level rate now stored last + cost req policy.algorithm -
          effectiveLimit policy.algorithm) rate)) 0
      else
        .take (GoFloat.roundHalfAway
            ((level rate now stored last + cost req policy.algorithm) * 1000))
          { allowed := true
            action := .allow
            reason := "within_leaky_bucket"
            remaining := truncate (effectiveLimit policy.algorithm -
              (level rate now stored last + cost req policy.algorithm)) } := by
  unfold plan
  simp only [drainedLevel_exact leaks, GoFloat.ofInt_exact, GoFloat.lt_fin, GoFloat.sub_exact,
    GoFloat.add_exact, GoFloat.mul_exact, GoFloat.round_fin, leaks, exact_toInt, truncate_intCast,
    decide_eq_true_eq]
  split
  · have wait := wait_exact (level rate now stored last + cost req policy.algorithm -
      effectiveLimit policy.algorithm) (leakRate_pos leaks)
    rw [GoFloat.ofInt_exact] at wait
    rw [wait]
  · rfl

end Exact

end LeakyBucket

end Rlaas.Algorithm
