import Mathlib.Algebra.Order.BigOperators.Group.List
import Mathlib.Algebra.Order.Field.Basic
import Mathlib.Data.Rat.Cast.Order
import Mathlib.Tactic.Linarith
import Mathlib.Tactic.Positivity
import Rlaas.Lib.Admission

/-! A sliding window estimated from two counters: what was admitted in the window
that has begun counts in full, what was admitted in the one before it counts by
the part of it that still lies within one width of now. -/

set_option autoImplicit false

/-- When and for how much a call asks, and the windows its admission is counted in. -/
structure Sliding (C : Type) where
  time : C → Int
  amount : C → Int
  costs : ∀ call, 0 < amount call
  start : Int → Int
  width : Int
  begun : ∀ t, start t ≤ t
  pending : ∀ t, t < start t + width
  limit : Int
  room : 0 < limit

namespace Sliding

variable {C : Type} (sliding : Sliding C)

theorem width_pos : 0 < sliding.width := by
  have begun := sliding.begun 0
  have pending := sliding.pending 0
  omega

/-- A counter is read in its own window and in the next one. -/
theorem le_start_add (t : Int) : t ≤ sliding.start t + 2 * sliding.width := by
  have pending := sliding.pending t
  have width := sliding.width_pos
  omega

theorem le_previous_add (t : Int) : t ≤ sliding.start t - sliding.width + 2 * sliding.width := by
  have pending := sliding.pending t
  omega

/-- The amounts of the calls that meet a test. -/
def total (test : C → Prop) [DecidablePred test] (past : List C) : Int :=
  (past.map fun call => if test call then sliding.amount call else 0).sum

def spent (past : List C) (start : Int) : Int :=
  sliding.total (fun call => sliding.start (sliding.time call) = start) past

/-- The part of the window before that lies within one width of an instant. -/
def weight (t : Int) : ℚ := ((sliding.width - (t - sliding.start t) : Int) : ℚ) / sliding.width

def load (past : List C) (call : C) : ℚ :=
  ((sliding.spent past (sliding.start (sliding.time call)) + sliding.amount call : Int) : ℚ) +
    (sliding.spent past (sliding.start (sliding.time call) - sliding.width) : ℚ) *
      sliding.weight (sliding.time call)

def admits (past : List C) (call : C) : Bool := decide (sliding.load past call ≤ sliding.limit)

section Totals

variable {sliding} {test : C → Prop} [DecidablePred test]

theorem total_snoc (past : List C) (call : C) :
    sliding.total test (past ++ [call]) =
      sliding.total test past + if test call then sliding.amount call else 0 := by
  simp [total]

theorem total_nonneg (past : List C) : 0 ≤ sliding.total test past := by
  refine List.sum_nonneg ?_
  intro term member
  obtain ⟨call, _, rfl⟩ := List.mem_map.mp member
  have costs := sliding.costs call
  split
  · exact costs.le
  · exact le_refl 0

theorem total_congr {other : C → Prop} [DecidablePred other] {past : List C}
    (same : ∀ call ∈ past, (test call ↔ other call)) :
    sliding.total test past = sliding.total other past := by
  unfold total
  congr 1
  exact List.map_congr_left fun call member => by simp only [same call member]

theorem total_le_add {left right : C → Prop} [DecidablePred left] [DecidablePred right]
    {past : List C} (covered : ∀ call ∈ past, test call → left call ∨ right call) :
    sliding.total test past ≤ sliding.total left past + sliding.total right past := by
  unfold total
  rw [← List.sum_map_add]
  refine List.sum_le_sum fun call member => ?_
  have costs := sliding.costs call
  by_cases inside : test call
  · rw [if_pos inside]
    rcases covered call member inside with first | second
    · rw [if_pos first]
      split <;> omega
    · rw [if_pos second]
      split <;> omega
  · rw [if_neg inside]
    split <;> split <;> omega

theorem total_eq_zero {past : List C} (none : ∀ call ∈ past, ¬test call) :
    sliding.total test past = 0 := by
  refine List.sum_eq_zero ?_
  intro term member
  obtain ⟨call, listed, rfl⟩ := List.mem_map.mp member
  exact if_neg (none call listed)

end Totals

section Weight

theorem weight_pos (t : Int) : 0 < sliding.weight t := by
  have pending := sliding.pending t
  have width : (0 : ℚ) < sliding.width := by exact_mod_cast sliding.width_pos
  have part : (0 : ℚ) < ((sliding.width - (t - sliding.start t) : Int) : ℚ) := by
    exact_mod_cast (by omega : 0 < sliding.width - (t - sliding.start t))
  exact div_pos part width

/-- At the start of a window all of the one before counts. -/
theorem weight_of_own {t : Int} (own : sliding.start t = t) : sliding.weight t = 1 := by
  have width : (sliding.width : ℚ) ≠ 0 := by exact_mod_cast ne_of_gt sliding.width_pos
  rw [weight, own, sub_self, sub_zero, div_self width]

end Weight

section Bounds

variable {sliding} {past : List C} {call : C}

/-- No window holds more than the limit, and no two adjacent ones twice the limit. -/
structure Bounded (sliding : Sliding C) (past : List C) : Prop where
  each : ∀ start, sliding.spent past start ≤ sliding.limit
  adjacent : ∀ start,
    sliding.spent past start + sliding.spent past (start - sliding.width) < 2 * sliding.limit

theorem Bounded.nil : sliding.Bounded ([] : List C) := by
  have room := sliding.room
  refine ⟨fun start => ?_, fun start => ?_⟩
  · exact room.le
  · change (0 : Int) + 0 < _
    omega

theorem spent_snoc (past : List C) (call : C) (start : Int) :
    sliding.spent (past ++ [call]) start = sliding.spent past start +
      if sliding.start (sliding.time call) = start then sliding.amount call else 0 :=
  total_snoc past call

/-- What an admitted call finds in its window and the one before. -/
theorem spent_of_admits (taken : sliding.admits past call = true) :
    sliding.spent past (sliding.start (sliding.time call)) + sliding.amount call ≤ sliding.limit ∧
      (0 < sliding.spent past (sliding.start (sliding.time call) - sliding.width) →
        sliding.spent past (sliding.start (sliding.time call)) + sliding.amount call <
          sliding.limit) := by
  have loaded : sliding.load past call ≤ sliding.limit := of_decide_eq_true taken
  have weight := sliding.weight_pos (sliding.time call)
  have before : (0 : ℚ) ≤
      sliding.spent past (sliding.start (sliding.time call) - sliding.width) := by
    exact_mod_cast total_nonneg past
  unfold load at loaded
  refine ⟨?_, fun used => ?_⟩
  · have carried := mul_nonneg before weight.le
    have bounded : ((sliding.spent past (sliding.start (sliding.time call)) +
        sliding.amount call : Int) : ℚ) ≤ sliding.limit := by linarith
    exact_mod_cast bounded
  · have filled : (0 : ℚ) <
        sliding.spent past (sliding.start (sliding.time call) - sliding.width) := by
      exact_mod_cast used
    have carried := mul_pos filled weight
    have bounded : ((sliding.spent past (sliding.start (sliding.time call)) +
        sliding.amount call : Int) : ℚ) < sliding.limit := by linarith
    exact_mod_cast bounded

theorem admits_of_limit_lt (large : sliding.limit < sliding.amount call) (past : List C) :
    sliding.admits past call = false := by
  cases taken : sliding.admits past call with
  | false => rfl
  | true =>
      have fits := (spent_of_admits taken).1
      have nonneg : 0 ≤ sliding.spent past (sliding.start (sliding.time call)) := total_nonneg past
      omega

theorem admits_nil (call : C) :
    sliding.admits [] call = decide (sliding.amount call ≤ sliding.limit) := by
  have loaded : sliding.load [] call = sliding.amount call := by
    simp [load, spent, total]
  rw [admits, loaded]
  exact decide_eq_decide.mpr Int.cast_le

theorem spent_ahead (ordered : ∀ earlier ∈ past, sliding.time earlier ≤ sliding.time call) :
    sliding.spent past (sliding.start (sliding.time call) + sliding.width) = 0 := by
  refine total_eq_zero fun earlier member ahead => ?_
  have before := ordered earlier member
  have begun := sliding.begun (sliding.time earlier)
  have pending := sliding.pending (sliding.time call)
  omega

theorem Bounded.snoc (bounded : sliding.Bounded past)
    (ordered : ∀ earlier ∈ past, sliding.time earlier ≤ sliding.time call)
    (taken : sliding.admits past call = true) : sliding.Bounded (past ++ [call]) := by
  obtain ⟨fits, shares⟩ := spent_of_admits taken
  have ahead := spent_ahead ordered
  have width := sliding.width_pos
  have room := sliding.room
  refine ⟨fun start => ?_, fun start => ?_⟩
  · rw [spent_snoc]
    split
    · next own => exact own ▸ fits
    · rw [add_zero]
      exact bounded.each start
  · rw [spent_snoc, spent_snoc]
    by_cases own : sliding.start (sliding.time call) = start
    · subst own
      rw [if_pos rfl, if_neg (by omega), add_zero]
      have before := bounded.each (sliding.start (sliding.time call) - sliding.width)
      by_cases used : 0 < sliding.spent past (sliding.start (sliding.time call) - sliding.width)
      · have less := shares used
        omega
      · omega
    · rw [if_neg own, add_zero]
      split
      · next next =>
          have same : start = sliding.start (sliding.time call) + sliding.width := by omega
          subst same
          rw [ahead, add_sub_cancel_right, zero_add]
          omega
      · rw [add_zero]
        exact bounded.adjacent start

/-- Windows of one width that tile the time line. -/
structure Tiles (sliding : Sliding C) : Prop where
  same : ∀ t u, sliding.start t ≤ u → u < sliding.start t + sliding.width →
    sliding.start u = sliding.start t
  shift : ∀ t, sliding.start (t - sliding.width) = sliding.start t - sliding.width

/-- Any interval of one width lies in two adjacent windows. -/
theorem Bounded.interval_lt (bounded : sliding.Bounded past) (tiles : sliding.Tiles) (t : Int) :
    sliding.total (fun call => t - sliding.width < sliding.time call ∧ sliding.time call ≤ t) past <
      2 * sliding.limit := by
  refine lt_of_le_of_lt (total_le_add fun call _ inside => ?_)
    (bounded.adjacent (sliding.start t))
  have begun := sliding.begun t
  have pending := sliding.pending t
  by_cases own : sliding.start t ≤ sliding.time call
  · exact .inl (tiles.same t _ own (by omega))
  · refine .inr ?_
    rw [← tiles.shift t]
    refine tiles.same (t - sliding.width) _ ?_ ?_
    · rw [tiles.shift]
      omega
    · rw [tiles.shift]
      omega

end Bounds

end Sliding
