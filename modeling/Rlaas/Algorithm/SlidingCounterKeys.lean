import Rlaas.Algorithm.Evaluators
import Rlaas.Algorithm.Tiling
import Rlaas.Go.Strings

/-! The two counters a sliding window counter call works with: the one of the
window that has begun, and the one of the window it takes to be the last. -/

set_option autoImplicit false

namespace Rlaas.Algorithm

open Go Model Store

namespace SlidingCounter

theorem window_of_pos {cfg : AlgorithmConfig} (positive : 0 < windowDuration cfg) :
    window cfg = windowDuration cfg :=
  if_neg (not_le.mpr positive)

/-- Two instants whose counters are the same are a multiple of the integer range apart. -/
theorem nanos_eq_of_counterKey {A : Arith} (arith : A = .exact ∨ A = .machine) {key : String}
    {start other : Time} (near : |start.nanos - other.nanos| < 2 ^ 63)
    (same : counterKey A key start = counterKey A key other) : start.nanos = other.nanos := by
  have wrapped := Strings.append_toString_injective same
  rcases arith with rfl | rfl
  · exact wrapped
  · simp only [Time.unixNano, machine_wrap, wrapInt64] at wrapped
    rw [abs_lt] at near
    omega

/-- The counter a call takes for that of the last window. -/
def prevKey (A : Arith) (key : String) (now : Time) (cfg : AlgorithmConfig) : String :=
  counterKey A key ((windowStart now cfg).add (-window cfg))

def curKey (A : Arith) (key : String) (now : Time) (cfg : AlgorithmConfig) : String :=
  counterKey A key (windowStart now cfg)

theorem evaluate_keys (A : Arith) (policy : Policy) (req : RequestContext) (key : String) :
    evaluate A policy req key = readNow fun now =>
      attempt (.get (prevKey A key now policy.algorithm)) fun prevCount =>
        counterLoop A (rule A policy req key now prevCount) (maxRetries policy.algorithm) :=
  rfl

theorem rule_key (A : Arith) (policy : Policy) (req : RequestContext) (key : String) (now : Time)
    (prevCount : Int) :
    (rule A policy req key now prevCount).key = curKey A key now policy.algorithm :=
  rfl

section Preceding

variable {A : Arith} {cfg : AlgorithmConfig} {key : String} {now t : Int}

theorem prevKey_of_length (positive : 0 < windowDuration cfg)
    (next : (windowEnd ⟨t, utc⟩ cfg).nanos = (windowStart ⟨now, utc⟩ cfg).nanos)
    (length : (windowEnd ⟨t, utc⟩ cfg).nanos - (windowStart ⟨t, utc⟩ cfg).nanos =
      windowDuration cfg) :
    prevKey A key ⟨now, utc⟩ cfg = curKey A key ⟨t, utc⟩ cfg := by
  have start : (windowStart ⟨now, utc⟩ cfg).nanos + -windowDuration cfg =
      (windowStart ⟨t, utc⟩ cfg).nanos := by
    rw [← next, ← length]
    ring
  rw [prevKey, curKey, counterKey, counterKey, Time.unixNano, Time.unixNano, window_of_pos positive,
    ← start]
  rfl

/-- The month before the one that has begun. -/
theorem month_of_preceding (month : cfg.window = "month")
    (next : (windowEnd ⟨t, utc⟩ cfg).nanos = (windowStart ⟨now, utc⟩ cfg).nanos) :
    Time.month ⟨t, utc⟩ + 1 = Time.month ⟨now, utc⟩ := by
  rw [windowEnd_month month, windowStart_month month] at next
  have days := Int.eq_of_mul_eq_mul_right (by decide) next
  exact Calendar.monthStart_injective (by omega)

theorem month_length (month : cfg.window = "month")
    (next : (windowEnd ⟨t, utc⟩ cfg).nanos = (windowStart ⟨now, utc⟩ cfg).nanos) :
    (windowEnd ⟨t, utc⟩ cfg).nanos - (windowStart ⟨t, utc⟩ cfg).nanos =
      (Calendar.monthStart (Time.month ⟨now, utc⟩) -
        Calendar.monthStart (Time.month ⟨now, utc⟩ - 1)) * dayNanos := by
  rw [windowEnd_month month, windowStart_month month, ← month_of_preceding month next,
    add_sub_cancel_right, monthNanos, monthNanos]
  ring

/-- A call reads the counter of the window before its own at every instant of that window,
unless the windows are months and the last one had not thirty days. -/
theorem prevKey_eq_curKey_iff (A : Arith) (arith : A = .exact ∨ A = .machine) (cfg : AlgorithmConfig)
    (sound : ∀ d, parseDuration cfg.window = some d → 0 < d) (key : String) (now : Time)
    (inUTC : now.loc = utc) :
    (∀ t : Time, t.loc = utc → windowEnd t cfg = windowStart now cfg →
        prevKey A key now cfg = curKey A key t cfg) ↔
      (cfg.window = "month" →
        Calendar.monthStart now.month - Calendar.monthStart (now.month - 1) = 30) := by
  have positive := windowDuration_pos sound
  obtain ⟨now, _⟩ := now
  obtain rfl : _ = utc := inUTC
  constructor
  · intro always month
    have ends := windowEnd_before positive now
    have next : windowEnd ⟨(windowStart ⟨now, utc⟩ cfg).nanos - 1, utc⟩ cfg =
        windowStart ⟨now, utc⟩ cfg := by
      rw [windowEnd_month month, windowStart_month month] at ends ⊢
      exact congrArg (Time.mk · utc) ends
    have length := month_length month ends
    have bounds := Calendar.monthStart_succ_bounds (Time.month ⟨now, utc⟩ - 1)
    rw [sub_add_cancel] at bounds
    have shifted : ((windowStart ⟨now, utc⟩ cfg).add (-window cfg)).nanos =
        (windowStart ⟨now, utc⟩ cfg).nanos - 30 * dayNanos := by
      rw [window_of_pos positive, windowDuration_month month]
      rfl
    have near : |((windowStart ⟨now, utc⟩ cfg).add (-window cfg)).nanos -
        (windowStart ⟨(windowStart ⟨now, utc⟩ cfg).nanos - 1, utc⟩ cfg).nanos| < 2 ^ 63 := by
      rw [shifted, abs_lt]
      unfold dayNanos hour minute second at length ⊢
      omega
    have starts := nanos_eq_of_counterKey arith near (always _ rfl next)
    rw [shifted] at starts
    unfold dayNanos hour minute second at length starts
    omega
  · rintro length ⟨t, _⟩ located next
    obtain rfl : _ = utc := located
    have ends := congrArg Time.nanos next
    refine prevKey_of_length positive ends ?_
    by_cases month : cfg.window = "month"
    · rw [month_length month ends, length month, windowDuration_month month]
      rfl
    · exact windowEnd_sub_windowStart month _

end Preceding

private def atDay (day : Int) : Time := ⟨day * dayNanos, utc⟩

private theorem month_next {day later : Int}
    (next : Time.month (atDay day) + 1 = Time.month (atDay later)) :
    windowEnd (atDay day) { window := "month" } = windowStart (atDay later) { window := "month" } := by
  rw [atDay, atDay, windowEnd_month rfl, windowStart_month rfl]
  exact congrArg (fun month => Time.mk (monthNanos month) utc) next

/-- From the fifteenth of May, 1970, back to the tenth of April. -/
theorem prevKey_of_april :
    prevKey .exact "k" (atDay 134) { window := "month" } =
      curKey .exact "k" (atDay 99) { window := "month" } :=
  (prevKey_eq_curKey_iff .exact (.inl rfl) { window := "month" } (by decide) "k" (atDay 134)
    rfl).mpr (by decide +kernel) (atDay 99) rfl (month_next (by decide +kernel))

/-- A call in March reads the counter of a month that would have begun on the thirtieth of
January; what February has used lies under another key. -/
theorem prevKey_misses_february :
    windowEnd (atDay 40) { window := "month" } = windowStart (atDay 65) { window := "month" } ∧
      prevKey .exact "k" (atDay 65) { window := "month" } ≠
        curKey .exact "k" (atDay 40) { window := "month" } ∧
      prevKey .machine "k" (atDay 65) { window := "month" } ≠
        curKey .machine "k" (atDay 40) { window := "month" } :=
  ⟨month_next (by decide +kernel), by decide +kernel, by decide +kernel⟩

end SlidingCounter

end Rlaas.Algorithm
