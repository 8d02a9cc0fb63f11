import Rlaas.Algorithm.Common

/-! The windows of package `common` in UTC. Start and end of a window come from
different calendar formulas; together they cut the time line into pieces. -/

set_option autoImplicit false

namespace Rlaas.Algorithm

open Go Model

theorem windowDuration_week {cfg : AlgorithmConfig} (week : cfg.window = "week") :
    windowDuration cfg = 7 * 24 * hour := by
  have unparsed : parseDuration "week" = none := by decide
  simp [windowDuration, week, unparsed]

/-- Every window but that of a month is as long as its duration says. -/
theorem windowEnd_sub_windowStart {cfg : AlgorithmConfig} (fixed : cfg.window ≠ "month") (t : Time) :
    (windowEnd t cfg).nanos - (windowStart t cfg).nanos = windowDuration cfg := by
  unfold windowEnd
  by_cases week : cfg.window = "week"
  · simp [week, windowDuration_week week, Time.add]
  · simp [fixed, week, Time.add]

section Tiling

variable {cfg : AlgorithmConfig}

theorem civilDay_utc (nanos : Int) :
    Time.civilDay ⟨nanos, utc⟩ = nanos / dayNanos + epochDay := by
  rw [Time.civilDay, Time.wall_utc]

def monthNanos (month : Int) : Int := (Calendar.monthStart month - epochDay) * dayNanos

theorem windowStart_month (month : cfg.window = "month") (nanos : Int) :
    windowStart ⟨nanos, utc⟩ cfg = ⟨monthNanos (Time.month ⟨nanos, utc⟩), utc⟩ := by
  rw [windowStart, if_pos month, Time.date_utc, monthNanos]
  simp

theorem month_monthNanos (month : Int) :
    Time.month ⟨monthNanos month, utc⟩ = month ∧ Time.day ⟨monthNanos month, utc⟩ = 1 ∧
      Time.clock ⟨monthNanos month, utc⟩ = 0 := by
  have whole : monthNanos month / dayNanos + epochDay = Calendar.monthStart month := by
    rw [monthNanos, Int.mul_ediv_cancel _ (by decide)]
    omega
  have begun : Time.month ⟨monthNanos month, utc⟩ = month := by
    rw [Time.month, civilDay_utc, whole, Calendar.monthOf_eq_iff]
    exact ⟨le_refl _, by have := (Calendar.monthStart_succ_bounds month).1; omega⟩
  refine ⟨begun, ?_, ?_⟩
  · rw [Time.day, begun, civilDay_utc, whole]
    omega
  · rw [Time.clock, Time.wall_utc, monthNanos]
    exact Int.mul_emod_left _ _

theorem windowEnd_month (month : cfg.window = "month") (nanos : Int) :
    windowEnd ⟨nanos, utc⟩ cfg = ⟨monthNanos (Time.month ⟨nanos, utc⟩ + 1), utc⟩ := by
  obtain ⟨begun, first, midnight⟩ := month_monthNanos (Time.month ⟨nanos, utc⟩)
  rw [windowEnd, if_pos month, windowStart_month month, Time.addMonths, begun, first, midnight,
    Time.date_utc, monthNanos]
  simp

private theorem windowStart_week (week : cfg.window = "week") (nanos : Int) :
    (windowStart ⟨nanos, utc⟩ cfg).nanos =
      (nanos / dayNanos - (nanos / dayNanos + 3) % 7) * dayNanos := by
  have other : cfg.window ≠ "month" := by simp [week]
  rw [windowStart, if_neg other, if_pos week, Time.date_utc]
  simp only [Time.day, Time.weekday, civilDay_utc]
  have monday : ((nanos / dayNanos + epochDay - epochDay + 4) % 7 + 6) % 7 =
    (nanos / dayNanos + 3) % 7 := by omega
  rw [monday]
  ring

theorem windowDuration_month (month : cfg.window = "month") :
    windowDuration cfg = 30 * 24 * hour := by
  have unparsed : parseDuration "month" = none := by decide
  simp [windowDuration, month, unparsed]

theorem window_ne_month (unset : windowDuration cfg ≤ 0) : cfg.window ≠ "month" := by
  intro month
  rw [windowDuration_month month] at unset
  exact absurd unset (by decide)

/-- Without a positive duration every instant is the start of its own window. -/
theorem windowStart_of_nonpositive (unset : windowDuration cfg ≤ 0) (now : Time) :
    windowStart now cfg = now := by
  have week : cfg.window ≠ "week" := fun week => by
    rw [windowDuration_week week] at unset
    exact absurd unset (by decide)
  rw [windowStart, if_neg (window_ne_month unset), if_neg week, Time.truncate, if_pos unset]

theorem windowStart_le (positive : 0 < windowDuration cfg) (t : Int) :
    (windowStart ⟨t, utc⟩ cfg).nanos ≤ t := by
  by_cases month : cfg.window = "month"
  · rw [windowStart_month month]
    have begun := (Calendar.monthOf_spec (t / dayNanos + epochDay)).1
    rw [← civilDay_utc] at begun
    change Calendar.monthStart (Time.month ⟨t, utc⟩) ≤ _ at begun
    rw [civilDay_utc] at begun
    simp only [monthNanos, dayNanos, hour, minute, second] at begun ⊢
    omega
  · by_cases week : cfg.window = "week"
    · rw [windowStart_week week]
      simp only [dayNanos, hour, minute, second]
      omega
    · rw [windowStart, if_neg month, if_neg week, Time.truncate_nanos _ positive]
      have remainder := Int.emod_nonneg (t - zeroNanos) (ne_of_gt positive)
      simp only
      omega

/-- In UTC the windows tile time: an instant between the bounds of a window has
this window as its own. -/
theorem windowStart_of_mem (positive : 0 < windowDuration cfg) {moment t : Int}
    (begun : (windowStart ⟨moment, utc⟩ cfg).nanos ≤ t)
    (pending : t < (windowEnd ⟨moment, utc⟩ cfg).nanos) :
    (windowStart ⟨t, utc⟩ cfg).nanos = (windowStart ⟨moment, utc⟩ cfg).nanos := by
  by_cases month : cfg.window = "month"
  · rw [windowStart_month month] at begun ⊢
    rw [windowEnd_month month] at pending
    rw [windowStart_month month]
    have same : Time.month ⟨t, utc⟩ = Time.month ⟨moment, utc⟩ := by
      rw [Time.month, civilDay_utc, Calendar.monthOf_eq_iff]
      simp only [monthNanos, dayNanos, hour, minute, second] at begun pending ⊢
      constructor <;> omega
    rw [same]
  · by_cases week : cfg.window = "week"
    · rw [windowEnd, if_neg month, if_pos week] at pending
      simp only [Time.add] at pending
      rw [windowStart_week week] at begun pending ⊢
      rw [windowStart_week week]
      simp only [dayNanos, hour, minute, second] at begun pending ⊢
      omega
    · rw [windowEnd, if_neg month, if_neg week] at pending
      simp only [Time.add] at pending
      rw [windowStart, if_neg month, if_neg week, Time.truncate_nanos _ positive] at begun pending ⊢
      rw [windowStart, if_neg month, if_neg week, Time.truncate_nanos _ positive]
      simp only at begun pending ⊢
      have parts := Int.emod_add_mul_ediv (moment - zeroNanos) (windowDuration cfg)
      have shifted := Int.sub_mul_emod_self_left (t - zeroNanos) (windowDuration cfg)
        ((moment - zeroNanos) / windowDuration cfg)
      rw [Int.emod_eq_of_lt (by omega) (by omega)] at shifted
      omega

theorem windowStart_loc (t : Int) : (windowStart ⟨t, utc⟩ cfg).loc = utc := by
  unfold windowStart
  split_ifs
  · rw [Time.date_utc]
  · rw [Time.date_utc]
  · unfold Time.truncate
    split_ifs
    · rfl
    · rfl

theorem windowStart_eq (t : Int) :
    windowStart ⟨t, utc⟩ cfg = ⟨(windowStart ⟨t, utc⟩ cfg).nanos, utc⟩ :=
  congrArg (Time.mk (windowStart ⟨t, utc⟩ cfg).nanos) (windowStart_loc t)

/-- The end of a window is computed from its start. -/
theorem windowEnd_of_windowStart {s t : Time} (same : windowStart s cfg = windowStart t cfg) :
    windowEnd s cfg = windowEnd t cfg := by
  rw [windowEnd, windowEnd, same]

theorem lt_windowEnd (positive : 0 < windowDuration cfg) (t : Int) :
    t < (windowEnd ⟨t, utc⟩ cfg).nanos := by
  by_cases month : cfg.window = "month"
  · rw [windowEnd_month month]
    have pending := (Calendar.monthOf_spec (t / dayNanos + epochDay)).2
    rw [← civilDay_utc] at pending
    change _ < Calendar.monthStart (Time.month ⟨t, utc⟩ + 1) at pending
    rw [civilDay_utc] at pending
    simp only [monthNanos, dayNanos, hour, minute, second] at pending ⊢
    omega
  · by_cases week : cfg.window = "week"
    · rw [windowEnd, if_neg month, if_pos week]
      simp only [Time.add]
      rw [windowStart_week week]
      simp only [dayNanos, hour, minute, second]
      omega
    · rw [windowEnd, if_neg month, if_neg week, windowStart, if_neg month, if_neg week]
      simp only [Time.add]
      rw [Time.truncate_nanos _ positive]
      have remainder := Int.emod_lt_of_pos (t - zeroNanos) positive
      simp only
      omega

theorem windowStart_own (positive : 0 < windowDuration cfg) (t : Int) :
    (windowStart ⟨(windowStart ⟨t, utc⟩ cfg).nanos, utc⟩ cfg).nanos =
      (windowStart ⟨t, utc⟩ cfg).nanos :=
  windowStart_of_mem positive (le_refl _)
    ((windowStart_le positive t).trans_lt (lt_windowEnd positive t))

/-- The instant before a window lies in the window before it. -/
theorem windowEnd_before (positive : 0 < windowDuration cfg) (t : Int) :
    (windowEnd ⟨(windowStart ⟨t, utc⟩ cfg).nanos - 1, utc⟩ cfg).nanos =
      (windowStart ⟨t, utc⟩ cfg).nanos := by
  have begun := windowStart_le positive ((windowStart ⟨t, utc⟩ cfg).nanos - 1)
  have pending := lt_windowEnd positive ((windowStart ⟨t, utc⟩ cfg).nanos - 1)
  have own := windowStart_own positive t
  refine le_antisymm (not_lt.mp fun inside => ?_) (by omega)
  have earlier := windowStart_of_mem positive (by omega) inside
  omega

/-- The end of a window is the start of the next. -/
theorem windowStart_windowEnd (positive : 0 < windowDuration cfg) (t : Int) :
    (windowStart ⟨(windowEnd ⟨t, utc⟩ cfg).nanos, utc⟩ cfg).nanos = (windowEnd ⟨t, utc⟩ cfg).nanos := by
  have begun := windowStart_le positive t
  have pending := lt_windowEnd positive t
  have next := windowStart_le positive (windowEnd ⟨t, utc⟩ cfg).nanos
  have last : (windowStart ⟨(windowEnd ⟨t, utc⟩ cfg).nanos - 1, utc⟩ cfg).nanos =
      (windowStart ⟨t, utc⟩ cfg).nanos := windowStart_of_mem positive (by omega) (by omega)
  refine le_antisymm next (not_lt.mp fun earlier => ?_)
  -- Otherwise both sides of the end lie in one window.
  have beyond := lt_windowEnd positive (windowEnd ⟨t, utc⟩ cfg).nanos
  have shared := windowStart_of_mem positive (Int.le_sub_one_of_lt earlier) (by omega)
  have same : windowStart ⟨(windowEnd ⟨t, utc⟩ cfg).nanos, utc⟩ cfg = windowStart ⟨t, utc⟩ cfg := by
    rw [windowStart_eq, windowStart_eq t, ← shared, last]
  rw [windowEnd_of_windowStart same] at beyond
  exact lt_irrefl _ beyond

theorem windowDuration_pos (sound : ∀ d, parseDuration cfg.window = some d → 0 < d) :
    0 < windowDuration cfg := by
  unfold windowDuration
  split
  · decide
  · split
    · next d parsed => exact sound d parsed
    · split_ifs <;> decide

/-- In UTC the windows of a setting tile the time line: every instant lies in its own window, a
window's start is its own start, and the instants of a window are those with the same start. -/
theorem windows_tile (cfg : AlgorithmConfig)
    (sound : ∀ d, parseDuration cfg.window = some d → 0 < d) (t : Time) (inUTC : t.loc = utc) :
    (windowStart t cfg).nanos ≤ t.nanos ∧ t.nanos < (windowEnd t cfg).nanos ∧
      windowStart (windowStart t cfg) cfg = windowStart t cfg ∧
      ∀ s : Time, s.loc = utc → (windowStart s cfg = windowStart t cfg ↔
        (windowStart t cfg).nanos ≤ s.nanos ∧ s.nanos < (windowEnd t cfg).nanos) := by
  have positive := windowDuration_pos sound
  obtain ⟨t, _⟩ := t
  obtain rfl : _ = utc := inUTC
  have begun := windowStart_le positive t
  have pending := lt_windowEnd positive t
  have members : ∀ s : Int, (windowStart ⟨t, utc⟩ cfg).nanos ≤ s →
      s < (windowEnd ⟨t, utc⟩ cfg).nanos → windowStart ⟨s, utc⟩ cfg = windowStart ⟨t, utc⟩ cfg := by
    intro s low high
    rw [windowStart_eq s, windowStart_of_mem positive low high, ← windowStart_eq]
  refine ⟨begun, pending, ?_, ?_⟩
  · rw [windowStart_eq t, windowStart_eq (windowStart ⟨t, utc⟩ cfg).nanos, windowStart_own positive]
  · rintro ⟨s, _⟩ located
    obtain rfl : _ = utc := located
    constructor
    · intro same
      refine ⟨?_, ?_⟩
      · rw [← same]
        exact windowStart_le positive s
      · rw [← windowEnd_of_windowStart same]
        exact lt_windowEnd positive s
    · rintro ⟨low, high⟩
      exact members s low high

/-- The last instant of 1969 lies in the week of the epoch. -/
theorem windows_tile_of_week :
    windowStart ⟨-1, utc⟩ { window := "week" } = windowStart ⟨0, utc⟩ { window := "week" } :=
  ((windows_tile { window := "week" } (by decide) ⟨0, utc⟩ rfl).2.2.2 ⟨-1, utc⟩ rfl).mpr
    (by decide)

end Tiling

end Rlaas.Algorithm
