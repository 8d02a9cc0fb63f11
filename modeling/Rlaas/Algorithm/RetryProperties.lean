import Rlaas.Algorithm.ExpiryProperties
import Rlaas.Algorithm.WindowRuns

/-! What the retry hint of a refusal is worth: whether the same request is admitted
when it comes back at the instant it was told, with no other call in between. -/

set_option autoImplicit false

namespace Rlaas.Algorithm

open Go Model Store Effect

variable {missing rate : ℚ}

def Kind.within : Kind → String
  | .fixedWindow => "within_fixed_window"
  | .tokenBucket => "token_available"
  | .slidingCounter => "within_sliding_window"
  | .concurrency => "concurrency_slot_acquired"
  | .quota => "within_quota"
  | .leakyBucket => "within_leaky_bucket"
  | .slidingLog => "within_sliding_log"

def Kind.exceeded : Kind → String
  | .fixedWindow => "fixed_window_limit_exceeded"
  | .tokenBucket => "token_bucket_depleted"
  | .slidingCounter => "sliding_window_limit_exceeded"
  | .concurrency => "concurrency_limit_exceeded"
  | .quota => "quota_exceeded"
  | .leakyBucket => "leaky_bucket_overflow"
  | .slidingLog => "sliding_log_limit_exceeded"

/-- The most that one request may cost. -/
def Kind.largest (cfg : AlgorithmConfig) : Kind → Int
  | .tokenBucket => TokenBucket.capacity cfg
  | _ => effectiveLimit cfg

/-- The time after which a call is told to come back, if it has exceeded the limit. -/
def Kind.hint (kind : Kind) : Answer → Option Duration
  | .ok decision => if decision.reason = kind.exceeded then some decision.retryAfter else none
  | .error _ => none

/-- The same request again. -/
def retried (kind : Kind) (policy : Policy) (key : String) (req : RequestContext) (now : Int)
    (retry : Duration) (store : MemoryStore) : Turn EnvOp EnvRes InstantCall Answer MemoryStore :=
  visit .exact kind policy key ⟨req, ⟨now + retry, utc⟩⟩
    (visit .exact kind policy key ⟨req, ⟨now, utc⟩⟩ store).after

/-- The hint is kept: it lies ahead, and the request is admitted then. -/
def HintKept (kind : Kind) (policy : Policy) (key : String) (req : RequestContext) (now : Int)
    (retry : Duration) (store : MemoryStore) : Prop :=
  0 < retry ∧ answered kind.within (retried kind policy key req now retry store).result = true

instance (kind : Kind) (policy : Policy) (key : String) (req : RequestContext) (now : Int)
    (retry : Duration) (store : MemoryStore) :
    Decidable (HintKept kind policy key req now retry store) :=
  inferInstanceAs (Decidable (_ ∧ _))

theorem Kind.exceeded_ne_within (kind : Kind) : kind.exceeded ≠ kind.within := by
  cases kind <;> decide

section Hint

variable {kind : Kind} {retry : Duration}

theorem hint_overLimit {policy : Policy} {clock : Time} {given : Duration} {remaining : Int}
    {reason : String}
    (hints : kind.hint (.ok (overLimitDecision policy clock given remaining reason)) = some retry) :
    given = retry := by
  rw [Kind.hint, overLimitDecision_retryAfter] at hints
  split at hints
  · exact Option.some.inj hints
  · cases hints

theorem not_answered_of_hint {answer : Answer} (hints : kind.hint answer = some retry) :
    answered kind.within answer = false := by
  unfold Kind.hint at hints
  split at hints
  · split at hints
    · next reason =>
        rw [answered, reason, beq_eq_false_iff_ne]
        exact kind.exceeded_ne_within
    · cases hints
  · cases hints

end Hint

section Windows

variable {cfg : AlgorithmConfig}

theorem windowEnd_le_of_nonpositive (unset : windowDuration cfg ≤ 0) (now : Int) :
    (windowEnd ⟨now, utc⟩ cfg).nanos ≤ now := by
  have length := windowEnd_sub_windowStart (window_ne_month unset) ⟨now, utc⟩
  rw [windowStart_of_nonpositive unset] at length
  exact sub_nonpos.mp (length.trans_le unset)

end Windows

namespace Windowed

variable {alg : Windowed} {policy : Policy} {key : String} {req : RequestContext} {now : Int}
  {retry : Duration} {store : MemoryStore}

theorem kind_within (alg : Windowed) : alg.kind.within = alg.within := by
  cases alg <;> rfl

theorem hint_eq
    (hints : alg.kind.hint (visit .exact alg.kind policy key ⟨req, ⟨now, utc⟩⟩ store).result =
      some retry) :
    retry = (windowEnd ⟨now, utc⟩ (alg.config policy.algorithm)).nanos - now ∧
      (visit .exact alg.kind policy key ⟨req, ⟨now, utc⟩⟩ store).after.cells =
        store.cells.dropExpired now (alg.counterOf policy key ⟨now, utc⟩) := by
  rcases alg.visit_cases policy key ⟨req, ⟨now, utc⟩⟩ store with ⟨_, result, cells⟩ | ⟨_, taken, _⟩
  · rw [result] at hints
    exact ⟨(hint_overLimit hints).symm, cells⟩
  · have refused := not_answered_of_hint hints
    rw [kind_within, taken] at refused
    cases refused

variable (alg) in
/-- At the end of its window a request finds a new counter, if the window has an end. -/
theorem hintKept_iff
    (opened : 0 < windowDuration (alg.config policy.algorithm) →
      OpenedCounters (fun start => alg.counterAt key start)
        (OpenedBy (alg.config policy.algorithm) now)
        (windowDuration (alg.config policy.algorithm)) store.cells)
    (fits : cost req policy.algorithm ≤ effectiveLimit policy.algorithm)
    (hints : alg.kind.hint (visit .exact alg.kind policy key ⟨req, ⟨now, utc⟩⟩ store).result =
      some retry) :
    HintKept alg.kind policy key req now retry store ↔
      0 < windowDuration (alg.config policy.algorithm) := by
  obtain ⟨rfl, left⟩ := hint_eq hints
  constructor
  · rintro ⟨ahead, _⟩
    refine not_le.mp fun unset => ?_
    have past := windowEnd_le_of_nonpositive unset now
    exact absurd ahead (not_lt.mpr (sub_nonpos.mpr past))
  · intro positive
    have pending := lt_windowEnd positive now
    refine ⟨sub_pos.mpr pending, ?_⟩
    rw [kind_within, retried, add_sub_cancel]
    rcases alg.visit_cases policy key
      ⟨req, ⟨(windowEnd ⟨now, utc⟩ (alg.config policy.algorithm)).nanos, utc⟩⟩
      (visit .exact alg.kind policy key ⟨req, ⟨now, utc⟩⟩ store).after
      with ⟨exceeds, _⟩ | ⟨_, taken, _⟩
    · have unopened := ((opened positive).dropExpired now
        (alg.counterOf policy key ⟨now, utc⟩)).value_of_unopened (not_openedBy pending)
      rw [← left] at unopened
      rw [counterOf, windowStart_windowEnd positive, seen_of_absent unopened, zero_add] at exceeds
      exact absurd fits (not_le.mpr exceeds)
    · exact taken

end Windowed

section Months

variable {cfg : AlgorithmConfig}

theorem month_span (month : cfg.window = "month") (t : Int) :
    28 * dayNanos ≤ (windowEnd ⟨t, utc⟩ cfg).nanos - (windowStart ⟨t, utc⟩ cfg).nanos := by
  have bounds := (Calendar.monthStart_succ_bounds (Time.month ⟨t, utc⟩)).1
  rw [windowEnd_month month, windowStart_month month, monthNanos, monthNanos, ← sub_mul,
    sub_sub_sub_cancel_right]
  exact mul_le_mul_of_nonneg_right (le_sub_iff_add_le'.mpr bounds) (by decide)

/-- Thirty days after the start of a shorter month the next month has begun, and no month starts
thirty days before that one. -/
theorem after_short_month (month : cfg.window = "month") (positive : 0 < windowDuration cfg)
    {now : Int} (short : (windowEnd ⟨now, utc⟩ cfg).nanos <
      (windowStart ⟨now, utc⟩ cfg).nanos + windowDuration cfg) :
    (windowStart ⟨(windowStart ⟨now, utc⟩ cfg).nanos + windowDuration cfg, utc⟩ cfg).nanos =
        (windowEnd ⟨now, utc⟩ cfg).nanos ∧
      ∀ t, (windowStart ⟨t, utc⟩ cfg).nanos ≠
        (windowEnd ⟨now, utc⟩ cfg).nanos - windowDuration cfg := by
  have days : (windowDuration cfg : Int) = 30 * dayNanos := windowDuration_month month
  have day : (0 : Int) < dayNanos := by decide
  have own := month_span month now
  constructor
  · have next := month_span month (windowEnd ⟨now, utc⟩ cfg).nanos
    have begun := windowStart_windowEnd positive now
    rw [begun] at next
    refine (windowStart_of_mem positive ?_ ?_).trans begun
    · rw [begun]
      exact short.le
    · rw [days]
      linarith
  · intro t same
    have before := month_span month ((windowStart ⟨now, utc⟩ cfg).nanos - 1)
    rw [windowEnd_before positive] at before
    rw [days] at same short
    have low : (windowStart ⟨(windowStart ⟨now, utc⟩ cfg).nanos - 1, utc⟩ cfg).nanos ≤
        (windowStart ⟨t, utc⟩ cfg).nanos := by linarith
    have high : (windowStart ⟨t, utc⟩ cfg).nanos <
        (windowEnd ⟨(windowStart ⟨now, utc⟩ cfg).nanos - 1, utc⟩ cfg).nanos := by
      rw [windowEnd_before positive]
      linarith
    have shared := windowStart_of_mem positive low high
    rw [windowStart_own positive] at shared
    linarith

end Months

namespace SlidingCounter

variable {policy : Policy} {key : String} {req : RequestContext} {now : Int} {retry : Duration}
  {store : MemoryStore}

/-- Where the counted window ends, by the width of a window. -/
def closing (cfg : AlgorithmConfig) (now : Int) : Int :=
  (windowStart ⟨now, utc⟩ cfg).nanos + window cfg

theorem hint_eq
    (hints : Kind.slidingCounter.hint
      (visit .exact .slidingCounter policy key ⟨req, ⟨now, utc⟩⟩ store).result = some retry) :
    retry = closing policy.algorithm now - now ∧
      (visit .exact .slidingCounter policy key ⟨req, ⟨now, utc⟩⟩ store).after.cells =
        (store.cells.dropExpired now (prevKey .exact key ⟨now, utc⟩ policy.algorithm)).dropExpired now
          (curKey .exact key ⟨now, utc⟩ policy.algorithm) := by
  rcases visit_cases policy key ⟨req, ⟨now, utc⟩⟩ store with ⟨_, result, cells⟩ | ⟨_, result, _⟩
  · rw [result] at hints
    exact ⟨(hint_overLimit hints).symm, cells⟩
  · have refused := not_answered_of_hint hints
    rw [result] at refused
    cases refused

theorem seen_after {later : Int}
    (opened : OpenedCounters (counterAt key) (OpenedBy policy.algorithm now)
      (2 * window policy.algorithm) store.cells)
    (left : (visit .exact .slidingCounter policy key ⟨req, ⟨now, utc⟩⟩ store).after.cells =
      (store.cells.dropExpired now (prevKey .exact key ⟨now, utc⟩ policy.algorithm)).dropExpired now
        (curKey .exact key ⟨now, utc⟩ policy.algorithm))
    (begun : now ≤ later) (soon : later ≤ closing policy.algorithm now) :
    seen (visit .exact .slidingCounter policy key ⟨req, ⟨now, utc⟩⟩ store).after later
        (curKey .exact key ⟨now, utc⟩ policy.algorithm) =
      seen store now (curKey .exact key ⟨now, utc⟩ policy.algorithm) := by
  have positive : (0 : Int) < window policy.algorithm := window_pos policy.algorithm
  have alive : ∀ instant ≤ closing policy.algorithm now,
      (store.cells (curKey .exact key ⟨now, utc⟩ policy.algorithm)).value.expired instant = false := by
    intro instant near
    have within : instant ≤ (windowStart ⟨now, utc⟩ policy.algorithm).nanos +
        2 * window policy.algorithm := by
      unfold closing at near
      linarith
    exact opened.unexpired within
  have fresh := alive now (begun.trans soon)
  rw [seen, seen, left, Cells.dropExpired_value_self,
    Cells.dropExpired_other now (prevKey_ne_curKey key ⟨now, utc⟩ policy.algorithm).symm,
    ValueItem.live_of_unexpired fresh, ValueItem.live_of_unexpired (alive later soon)]

/-- A month that ends before its width does. -/
def Short (cfg : AlgorithmConfig) (now : Int) : Prop :=
  cfg.window = "month" ∧ (windowEnd ⟨now, utc⟩ cfg).nanos < closing cfg now

/-- After a short month both counters are new. -/
theorem Short.after {cfg : AlgorithmConfig} (short : Short cfg now) :
    0 < windowDuration cfg ∧
      (windowStart ⟨closing cfg now, utc⟩ cfg).nanos = (windowEnd ⟨now, utc⟩ cfg).nanos ∧
      ∀ t, (windowStart ⟨t, utc⟩ cfg).nanos ≠ (windowEnd ⟨now, utc⟩ cfg).nanos - window cfg := by
  have positive : 0 < windowDuration cfg := by
    rw [windowDuration_month short.1]
    decide
  have early := short.2
  unfold closing at early ⊢
  rw [window_of_pos positive] at early ⊢
  exact ⟨positive, after_short_month short.1 positive early⟩

/-- The width of a window ends with the window, within it, or in the next month. -/
theorem closing_cases (cfg : AlgorithmConfig) (now : Int) :
    (¬Short cfg now ∧ (windowStart ⟨closing cfg now, utc⟩ cfg).nanos = closing cfg now) ∨
      (¬Short cfg now ∧ (windowStart ⟨closing cfg now, utc⟩ cfg).nanos =
        (windowStart ⟨now, utc⟩ cfg).nanos) ∨ Short cfg now := by
  by_cases positive : 0 < windowDuration cfg
  · have width := window_of_pos positive
    have ends : (windowEnd ⟨now, utc⟩ cfg).nanos = closing cfg now →
        (windowStart ⟨closing cfg now, utc⟩ cfg).nanos = closing cfg now := fun same =>
      same ▸ windowStart_windowEnd positive now
    by_cases month : cfg.window = "month"
    · rcases lt_trichotomy (windowEnd ⟨now, utc⟩ cfg).nanos (closing cfg now) with short | same | long
      · exact .inr (.inr ⟨month, short⟩)
      · exact .inl ⟨fun short => short.2.ne same, ends same⟩
      · refine .inr (.inl ⟨fun short => short.2.not_gt long, ?_⟩)
        have begun : (windowStart ⟨now, utc⟩ cfg).nanos ≤ closing cfg now :=
          le_add_of_nonneg_right (window_pos cfg).le
        exact windowStart_of_mem positive begun long
    · refine .inl ⟨fun short => month short.1, ends ?_⟩
      rw [closing, width, ← windowEnd_sub_windowStart month ⟨now, utc⟩]
      ring
  · have unset := not_lt.mp positive
    refine .inl ⟨fun short => ?_, ?_⟩
    · rw [windowDuration_month short.1] at unset
      exact absurd unset (by decide)
    · rw [windowStart_of_nonpositive unset]

section Closing

variable {cfg : AlgorithmConfig}

theorem share_of_start {now : Int} (own : (windowStart ⟨now, utc⟩ cfg).nanos = now) :
    share cfg ⟨now, utc⟩ = 1 := by
  have lasting : ((window cfg : Int) : ℚ) ≠ 0 := Int.cast_ne_zero.mpr (window_pos cfg).ne'
  rw [share, own, sub_self, sub_zero, div_self lasting]
  exact max_eq_right zero_le_one

theorem share_of_closing {now : Int}
    (own : (windowStart ⟨closing cfg now, utc⟩ cfg).nanos = (windowStart ⟨now, utc⟩ cfg).nanos) :
    share cfg ⟨closing cfg now, utc⟩ = 0 := by
  have used : (window cfg - (closing cfg now - (windowStart ⟨now, utc⟩ cfg).nanos) : Int) = 0 := by
    unfold closing
    ring
  rw [share, own, used, Int.cast_zero, zero_div, max_self]

end Closing

theorem counterAt_start (key : String) (cfg : AlgorithmConfig) (now : Time) :
    curKey .exact key now cfg = counterAt key (windowStart now cfg).nanos ∧
      prevKey .exact key now cfg = counterAt key ((windowStart now cfg).nanos - window cfg) :=
  ⟨rfl, rfl⟩

/-- At the hint the counter of the refused call still counts in full, unless a short month has
gone by. -/
theorem hintKept_iff
    (opened : OpenedCounters (counterAt key) (OpenedBy policy.algorithm now)
      (2 * window policy.algorithm) store.cells)
    (fits : cost req policy.algorithm ≤ effectiveLimit policy.algorithm)
    (hints : Kind.slidingCounter.hint
      (visit .exact .slidingCounter policy key ⟨req, ⟨now, utc⟩⟩ store).result = some retry) :
    HintKept .slidingCounter policy key req now retry store ↔
      now < closing policy.algorithm now ∧ (Short policy.algorithm now ∨
        seen store now (curKey .exact key ⟨now, utc⟩ policy.algorithm) + cost req policy.algorithm ≤
          effectiveLimit policy.algorithm) := by
  obtain ⟨rfl, left⟩ := hint_eq hints
  rw [HintKept, sub_pos]
  refine and_congr_right fun later => ?_
  have kept := seen_after opened left later.le le_rfl
  have unopened : ∀ start, ¬OpenedBy policy.algorithm now start →
      seen (visit .exact .slidingCounter policy key ⟨req, ⟨now, utc⟩⟩ store).after
        (closing policy.algorithm now) (counterAt key start) = 0 := by
    intro start unopened
    have after := (opened.dropExpired now (prevKey .exact key ⟨now, utc⟩ policy.algorithm)).dropExpired
      now (curKey .exact key ⟨now, utc⟩ policy.algorithm)
    rw [← left] at after
    exact seen_of_absent (after.value_of_unopened unopened) _
  rw [retried, add_sub_cancel]
  refine (answered_iff policy key _ _).trans ?_
  simp only [(counterAt_start key policy.algorithm ⟨closing policy.algorithm now, utc⟩).1,
    (counterAt_start key policy.algorithm ⟨closing policy.algorithm now, utc⟩).2, estimate]
  rcases closing_cases policy.algorithm now with ⟨long, own⟩ | ⟨long, own⟩ | short
  · have previous : closing policy.algorithm now - window policy.algorithm =
        (windowStart ⟨now, utc⟩ policy.algorithm).nanos := add_sub_cancel_right _ _
    rw [own, share_of_start own, unopened _ (not_openedBy later), previous, or_iff_right long]
    change _ + ((seen _ _ (curKey .exact key ⟨now, utc⟩ policy.algorithm) : Int) : ℚ) * 1 ≤ _ ↔ _
    rw [kept, mul_one, zero_add, ← Int.cast_add, Int.cast_le, add_comm]
  · rw [own, share_of_closing own, mul_zero, add_zero, Int.cast_le, or_iff_right long]
    change seen _ _ (curKey .exact key ⟨now, utc⟩ policy.algorithm) + _ ≤ _ ↔ _
    rw [kept]
  · obtain ⟨positive, next, none⟩ := short.after
    have before : ¬OpenedBy policy.algorithm now
        ((windowEnd ⟨now, utc⟩ policy.algorithm).nanos - window policy.algorithm) := by
      rintro ⟨t, _, same⟩
      exact none t same
    rw [next, unopened _ (not_openedBy (lt_windowEnd positive now)), unopened _ before, Int.cast_zero,
      zero_mul, add_zero, zero_add, Int.cast_le]
    exact iff_of_true fits (.inl short)

end SlidingCounter

namespace BucketAlgorithm

variable {algorithm : BucketAlgorithm} {call : InstantCall} {store : MemoryStore}
  {last : Option Fill}

theorem answered_iff (holds : algorithm.bucket.Holds store.cells last) :
    answered algorithm.within (algorithm.visit call store).result = true ↔
      ∃ level decision, algorithm.step call last = .take level decision := by
  constructor
  · intro taken
    obtain ⟨level, decision, planned, _⟩ := visit_admitted holds taken
    exact ⟨level, decision, planned⟩
  · rintro ⟨level, decision, planned⟩
    rcases visit_cases holds with ⟨_, _, refused, _, _⟩ | ⟨_, _, taken, result, _⟩
    · rw [planned] at refused
      cases refused
    · rw [result, answered, algorithm.admits taken, beq_self_eq_true]

theorem hint_step {kind : Kind} {retry : Duration} (named : kind.within = algorithm.within)
    (holds : algorithm.bucket.Holds store.cells last)
    (hints : kind.hint (algorithm.visit call store).result = some retry) :
    (∃ remaining, algorithm.step call last = .refuse retry remaining) ∧
      algorithm.bucket.Holds (algorithm.visit call store).after.cells
        (algorithm.bucket.found call.now.nanos last) := by
  rcases visit_cases holds with ⟨_, remaining, planned, result, kept⟩ | ⟨_, _, planned, result, _⟩
  · rw [result] at hints
    exact ⟨⟨remaining, hint_overLimit hints ▸ planned⟩, kept⟩
  · have refused := not_answered_of_hint hints
    rw [result, answered, algorithm.admits planned, named, beq_self_eq_true] at refused
    cases refused

end BucketAlgorithm

theorem waitNanos_pos (short : 0 < missing) (pays : 0 < rate) :
    0 < waitNanos missing rate := by
  unfold waitNanos
  positivity

theorem truncate_wait_nonneg (short : 0 < missing) (pays : 0 < rate) :
    0 ≤ truncate (waitNanos missing rate) := by
  have wait := (waitNanos_pos short pays).le
  rw [truncate_of_nonneg wait]
  exact Int.floor_nonneg.mpr wait

/-- The truncated wait makes up for what is missing only if nothing was cut off. -/
theorem truncate_waits_iff (short : 0 < missing) (pays : 0 < rate) :
    (0 < truncate (waitNanos missing rate) ∧
        missing ≤ rate * ((truncate (waitNanos missing rate) : ℚ) / 1000000000)) ↔
      (truncate (waitNanos missing rate) : ℚ) = waitNanos missing rate := by
  have wait := waitNanos_pos short pays
  have cut : (truncate (waitNanos missing rate) : ℚ) ≤ waitNanos missing rate := by
    rw [truncate_of_nonneg wait.le]
    exact Int.floor_le _
  have covers : ∀ waited : ℚ, missing ≤ rate * (waited / 1000000000) ↔
      waitNanos missing rate ≤ waited := by
    intro waited
    rw [waitNanos, mul_div_assoc', le_div_iff₀ (by norm_num), div_mul_eq_mul_div, div_le_iff₀ pays,
      mul_comm rate]
  rw [covers]
  constructor
  · rintro ⟨_, enough⟩
    exact le_antisymm cut enough
  · intro whole
    refine ⟨?_, whole.ge⟩
    rw [← whole] at wait
    exact_mod_cast wait

/-- A wait of no time finds what was there. -/
theorem Bucket.pos_of_expired {bucket : Bucket} {fill : Fill} {now : Int} {retry : Duration}
    (fresh : bucket.expired now fill = false) (gone : bucket.expired (now + retry) fill = true) :
    0 < retry := by
  refine not_le.mp fun back => ?_
  have before := bucket.expired_of_le (add_le_of_nonpos_right back : now + retry ≤ now) gone
  rw [fresh] at before
  cases before

namespace TokenBucket

variable {policy : Policy} {key : String} {req : RequestContext} {now : Int} {retry : Duration}
  {store : MemoryStore} {rate : ℚ} {last : Option Fill} {call : InstantCall}

theorem step_take_iff (refill : refillRate .exact policy.algorithm = .fin rate) :
    (∃ level decision, (algorithm policy key).step call last = .take level decision) ↔
      (cost call.req policy.algorithm : ℚ) ≤
        tokensFound policy.algorithm rate key call.now.nanos last := by
  have planned : (algorithm policy key).step call last = _ := plan_exact refill
  rw [planned]
  split
  · next short => exact iff_of_false (by rintro ⟨_, _, taken⟩; cases taken) (not_le.mpr short)
  · next enough => exact iff_of_true ⟨_, _, rfl⟩ (not_lt.mp enough)

theorem short_of_step {remaining : Int}
    (refill : refillRate .exact policy.algorithm = .fin rate)
    (planned : (algorithm policy key).step call last = .refuse retry remaining) :
    tokensFound policy.algorithm rate key call.now.nanos last < cost call.req policy.algorithm ∧
      truncate (waitNanos (cost call.req policy.algorithm -
        tokensFound policy.algorithm rate key call.now.nanos last) rate) = retry := by
  have stepped : (algorithm policy key).step call last = _ := plan_exact refill
  rw [stepped] at planned
  split at planned
  · next short =>
      cases planned
      exact ⟨short, rfl⟩
  · cases planned

/-- A bucket that is short of tokens is one that was used and not forgotten. -/
theorem found_of_short {asked : ℚ} (fits : asked ≤ capacity policy.algorithm)
    (short : tokensFound policy.algorithm rate key now last < asked) :
    ∃ fill, last = some fill ∧ (bucket key).expired now fill = false ∧ fill.stamp ≠ 0 := by
  have partly : tokensFound policy.algorithm rate key now last ≠ capacity policy.algorithm :=
    (short.trans_le fits).ne
  cases last with
  | none => exact absurd (tokensFound_none _ _ _ _) partly
  | some fill =>
      cases gone : (bucket key).expired now fill with
      | true => exact absurd (tokensFound_of_expired gone) partly
      | false =>
          refine ⟨fill, rfl, gone, fun unused => partly ?_⟩
          rw [tokensFound, (bucket key).found_of_unexpired gone]
          exact if_pos unused

theorem refilledSince_add {cfg : AlgorithmConfig} {fill : Fill} {asked : ℚ}
    (fits : asked ≤ capacity cfg) (short : refilledSince cfg rate fill now < asked) :
    asked ≤ refilledSince cfg rate fill (now + retry) ↔
      asked - refilledSince cfg rate fill now ≤ rate * ((retry : ℚ) / 1000000000) := by
  have base : refilledSince cfg rate fill now =
      (fill.level : ℚ) / 1000 + rate * (((now - fill.stamp : Int) : ℚ) / 1000000000) :=
    min_eq_right (le_of_not_ge fun full => absurd (min_eq_left full) (short.trans_le fits).ne)
  rw [base, refilledSince, le_min_iff, and_iff_right fits]
  push_cast
  constructor
  · intro enough
    linarith
  · intro enough
    linarith

/-- How long the tokens that a request is short of take, by what is stored. -/
def wait (policy : Policy) (key : String) (req : RequestContext) (now : Int) (rate : ℚ)
    (store : MemoryStore) : ℚ :=
  waitNanos (cost req policy.algorithm - tokens policy.algorithm rate now
    (seen store now (levelKey key)) (seen store now (tsKey key))) rate

/-- The hint is kept if the wait is a whole number of nanoseconds, or so long that the bucket
is forgotten. -/
theorem hintKept_iff (refill : refillRate .exact policy.algorithm = .fin rate)
    (holds : (bucket key).Holds store.cells last) (stamped : ∀ fill ∈ last, fill.stamp ≤ now)
    (fits : cost req policy.algorithm ≤ capacity policy.algorithm)
    (hints : Kind.tokenBucket.hint
      (visit .exact .tokenBucket policy key ⟨req, ⟨now, utc⟩⟩ store).result = some retry) :
    HintKept .tokenBucket policy key req now retry store ↔
      seen store (now + truncate (wait policy key req now rate store)) (tsKey key) = 0 ∨
        (truncate (wait policy key req now rate store) : ℚ) = wait policy key req now rate store := by
  have named : Kind.within .tokenBucket = (algorithm policy key).within := rfl
  obtain ⟨⟨remaining, planned⟩, kept⟩ := BucketAlgorithm.hint_step named holds hints
  obtain ⟨short, hint⟩ := short_of_step refill planned
  have room : (cost req policy.algorithm : ℚ) ≤ capacity policy.algorithm := by exact_mod_cast fits
  obtain ⟨fill, rfl, fresh, used⟩ := found_of_short room short
  have ordered : fill.stamp ≤ now := stamped fill rfl
  change (bucket key).Holds _ ((bucket key).found now (some fill)) at kept
  rw [(bucket key).found_of_unexpired fresh] at kept
  have read : tokens policy.algorithm rate now (seen store now (levelKey key))
      (seen store now (tsKey key)) = tokensFound policy.algorithm rate key now (some fill) :=
    congrArg₂ (tokens policy.algorithm rate now) (holds.seen_level now) (holds.seen_stamp now)
  have stamp : seen store (now + retry) (tsKey key) =
      ((bucket key).item Fill.stamp ((bucket key).found (now + retry) (some fill))).value :=
    holds.seen_stamp (now + retry)
  have again : answered "token_available"
      (retried .tokenBucket policy key req now retry store).result = true ↔ _ :=
    (BucketAlgorithm.answered_iff kept).trans (step_take_iff refill)
  have missing := sub_pos.mpr short
  have waited : truncate (wait policy key req now rate store) = retry := by
    rw [wait, read]
    exact hint
  rw [HintKept, Kind.within, again, waited, wait, read, stamp]
  cases gone : (bucket key).expired (now + retry) fill with
  | true =>
      rw [(bucket key).found_of_expired gone, tokensFound_of_expired gone]
      exact iff_of_true ⟨Bucket.pos_of_expired fresh gone, room⟩ (.inl rfl)
  | false =>
      have nonneg : 0 ≤ retry := hint ▸ truncate_wait_nonneg missing (refillRate_pos refill)
      have later : fill.stamp ≤ now + retry := by linarith
      rw [(bucket key).found_of_unexpired gone, tokensFound_of_unexpired gone used later]
      rw [tokensFound_of_unexpired fresh used ordered] at short missing hint ⊢
      rw [refilledSince_add room short, ← hint, truncate_waits_iff missing (refillRate_pos refill)]
      exact (or_iff_right used).symm

end TokenBucket

namespace LeakyBucket

variable {policy : Policy} {key : String} {req : RequestContext} {now : Int} {retry : Duration}
  {store : MemoryStore} {rate : ℚ} {last : Option Fill} {call : InstantCall}

theorem step_take_iff (leaks : leakRate policy.algorithm = .fin rate) :
    (∃ level decision, (algorithm policy key).step call last = .take level decision) ↔
      levelFound policy.algorithm rate key call.now.nanos last + cost call.req policy.algorithm ≤
        effectiveLimit policy.algorithm := by
  have planned : (algorithm policy key).step call last = _ := plan_exact leaks
  rw [planned]
  split
  · next exceeds => exact iff_of_false (by rintro ⟨_, _, taken⟩; cases taken) (not_le.mpr exceeds)
  · next fits => exact iff_of_true ⟨_, _, rfl⟩ (not_lt.mp fits)

theorem over_of_step {remaining : Int} (leaks : leakRate policy.algorithm = .fin rate)
    (planned : (algorithm policy key).step call last = .refuse retry remaining) :
    (effectiveLimit policy.algorithm : ℚ) <
        levelFound policy.algorithm rate key call.now.nanos last + cost call.req policy.algorithm ∧
      truncate (waitNanos (levelFound policy.algorithm rate key call.now.nanos last +
        cost call.req policy.algorithm - effectiveLimit policy.algorithm) rate) = retry := by
  have stepped : (algorithm policy key).step call last = _ := plan_exact leaks
  rw [stepped] at planned
  split at planned
  · next exceeds =>
      cases planned
      exact ⟨exceeds, rfl⟩
  · cases planned

section Level

variable {cfg : AlgorithmConfig} {fill : Fill}

theorem levelFound_of_unexpired (fresh : (bucket cfg key).expired now fill = false) :
    levelFound cfg rate key now (some fill) = level rate now fill.level fill.stamp := by
  rw [levelFound, (bucket cfg key).found_of_unexpired fresh]
  rfl

theorem level_of_zero (pays : 0 < rate) (last : Int) : level rate now 0 last = 0 := by
  have leaked : 0 ≤ (if last = 0 then 0 else elapsed last now) * rate := by
    refine mul_nonneg ?_ pays.le
    split
    · exact le_refl 0
    · exact elapsed_nonneg last now
  rw [level, Int.cast_zero, zero_div, zero_sub]
  exact max_eq_left (neg_nonpos.mpr leaked)

/-- A bucket that holds something was filled and is not forgotten. -/
theorem found_of_level (pays : 0 < rate) (filled : 0 < levelFound cfg rate key now last) :
    ∃ fill, last = some fill ∧ (bucket cfg key).expired now fill = false ∧ fill.level ≠ 0 := by
  cases last with
  | none =>
      have empty : levelFound cfg rate key now none = 0 := level_of_zero pays 0
      exact absurd empty filled.ne'
  | some fill =>
      cases gone : (bucket cfg key).expired now fill with
      | true => exact absurd (levelFound_of_expired gone) filled.ne'
      | false =>
          refine ⟨fill, rfl, gone, fun empty => filled.ne' ?_⟩
          rw [levelFound_of_unexpired gone, empty]
          exact level_of_zero pays fill.stamp

theorem level_add_le_iff {stored stamp : Int} {room : ℚ} (used : stamp ≠ 0) (ordered : stamp ≤ now)
    (waited : 0 ≤ retry) (spare : 0 ≤ room) (filled : 0 < level rate now stored stamp) :
    level rate (now + retry) stored stamp ≤ room ↔
      level rate now stored stamp - room ≤ rate * ((retry : ℚ) / 1000000000) := by
  have later : stamp ≤ now + retry := by linarith
  have base : level rate now stored stamp =
      (stored : ℚ) / 1000 - ((now - stamp : Int) : ℚ) / 1000000000 * rate := by
    rw [level, if_neg used, elapsed_of_le ordered] at filled ⊢
    exact max_eq_right (le_of_not_ge fun empty => absurd (max_eq_left empty) filled.ne')
  rw [base, level, if_neg used, elapsed_of_le later, max_le_iff, and_iff_right spare]
  push_cast
  constructor
  · intro enough
    linarith
  · intro enough
    linarith

end Level

/-- How long what does not fit takes to leak, by what is stored. -/
def wait (policy : Policy) (key : String) (req : RequestContext) (now : Int) (rate : ℚ)
    (store : MemoryStore) : ℚ :=
  waitNanos (level rate now (seen store now (levelKey key)) (seen store now (tsKey key)) +
    cost req policy.algorithm - effectiveLimit policy.algorithm) rate

/-- The hint is kept if the wait is a whole number of nanoseconds and the bucket leaks, or if it
is so long that the bucket is forgotten. -/
theorem hintKept_iff (leaks : leakRate policy.algorithm = .fin rate)
    (holds : (bucket policy.algorithm key).Holds store.cells last)
    (stamped : ∀ fill ∈ last, fill.stamp ≤ now)
    (fits : cost req policy.algorithm ≤ effectiveLimit policy.algorithm)
    (hints : Kind.leakyBucket.hint
      (visit .exact .leakyBucket policy key ⟨req, ⟨now, utc⟩⟩ store).result = some retry) :
    HintKept .leakyBucket policy key req now retry store ↔
      seen store (now + truncate (wait policy key req now rate store)) (levelKey key) = 0 ∨
        seen store now (tsKey key) ≠ 0 ∧ (truncate (wait policy key req now rate store) : ℚ) =
          wait policy key req now rate store := by
  have named : Kind.within .leakyBucket = (algorithm policy key).within := rfl
  have pays := leakRate_pos leaks
  obtain ⟨⟨remaining, planned⟩, kept⟩ := BucketAlgorithm.hint_step named holds hints
  obtain ⟨exceeds, hint⟩ := over_of_step leaks planned
  have spare : (0 : ℚ) ≤ effectiveLimit policy.algorithm - cost req policy.algorithm := by
    rw [sub_nonneg]
    exact_mod_cast fits
  have filled : 0 < levelFound policy.algorithm rate key now last := by
    change (effectiveLimit policy.algorithm : ℚ) <
      levelFound policy.algorithm rate key now last + cost req policy.algorithm at exceeds
    linarith
  obtain ⟨fill, rfl, fresh, stored⟩ := found_of_level pays filled
  have ordered : fill.stamp ≤ now := stamped fill rfl
  change (bucket policy.algorithm key).Holds _
    ((bucket policy.algorithm key).found now (some fill)) at kept
  rw [(bucket policy.algorithm key).found_of_unexpired fresh] at kept
  have levelRead : seen store now (levelKey key) = ((bucket policy.algorithm key).item Fill.level
      ((bucket policy.algorithm key).found now (some fill))).value := holds.seen_level now
  have stampRead : seen store now (tsKey key) = ((bucket policy.algorithm key).item Fill.stamp
      ((bucket policy.algorithm key).found now (some fill))).value := holds.seen_stamp now
  have levelLater : seen store (now + retry) (levelKey key) =
      ((bucket policy.algorithm key).item Fill.level
        ((bucket policy.algorithm key).found (now + retry) (some fill))).value :=
    holds.seen_level (now + retry)
  have again : answered "within_leaky_bucket"
      (retried .leakyBucket policy key req now retry store).result = true ↔ _ :=
    (BucketAlgorithm.answered_iff kept).trans (step_take_iff leaks)
  have missing := sub_pos.mpr exceeds
  have waited : truncate (wait policy key req now rate store) = retry := by
    rw [wait, levelRead, stampRead]
    exact hint
  rw [HintKept, Kind.within, again, waited, wait, levelRead, stampRead, levelLater,
    (bucket policy.algorithm key).found_of_unexpired fresh]
  cases gone : (bucket policy.algorithm key).expired (now + retry) fill with
  | true =>
      rw [(bucket policy.algorithm key).found_of_expired gone, levelFound_of_expired gone]
      refine iff_of_true ⟨Bucket.pos_of_expired fresh gone, ?_⟩ (.inl rfl)
      linarith
  | false =>
      rw [(bucket policy.algorithm key).found_of_unexpired gone, levelFound_of_unexpired gone]
      rw [levelFound_of_unexpired fresh] at filled missing hint exceeds
      change _ ↔ fill.level = 0 ∨ fill.stamp ≠ 0 ∧ (retry : ℚ) = waitNanos
        (level rate now fill.level fill.stamp + cost req policy.algorithm -
          effectiveLimit policy.algorithm) rate
      rw [or_iff_right stored, ← le_sub_iff_add_le]
      by_cases unused : fill.stamp = 0
      · -- A stamp of zero is read as the present, so that nothing leaks.
        have unmoved : level rate (now + retry) fill.level fill.stamp =
            level rate now fill.level fill.stamp := by
          rw [level, level, if_pos unused, if_pos unused]
        rw [unmoved]
        refine iff_of_false (fun enough => ?_) fun leaking => leaking.1 unused
        linarith [enough.2]
      · have nonneg : 0 ≤ retry := hint ▸ truncate_wait_nonneg missing pays
        rw [level_add_le_iff unused ordered nonneg spare filled, sub_sub_eq_add_sub,
          and_iff_right unused, ← hint, truncate_waits_iff missing pays]

end LeakyBucket

/-- The rate at which a bucket makes up for what was taken. -/
def Kind.Paced (cfg : AlgorithmConfig) (rate : ℚ) : Kind → Prop
  | .tokenBucket => TokenBucket.refillRate .exact cfg = .fin rate
  | .leakyBucket => LeakyBucket.leakRate cfg = .fin rate
  | _ => True

/-- What makes the hint of a refused call good, in what the call finds. -/
def Kind.HintSound (policy : Policy) (key : String) (req : RequestContext) (now : Int) (rate : ℚ)
    (store : MemoryStore) : Kind → Prop
  | .fixedWindow => 0 < windowDuration policy.algorithm
  | .quota => 0 < windowDuration (Quota.period policy.algorithm)
  | .slidingCounter =>
      now < SlidingCounter.closing policy.algorithm now ∧ (SlidingCounter.Short policy.algorithm now ∨
        seen store now (SlidingCounter.curKey .exact key ⟨now, utc⟩ policy.algorithm) +
          cost req policy.algorithm ≤ effectiveLimit policy.algorithm)
  | .tokenBucket =>
      let wait := TokenBucket.wait policy key req now rate store
      seen store (now + truncate wait) (TokenBucket.tsKey key) = 0 ∨ (truncate wait : ℚ) = wait
  | .leakyBucket =>
      let wait := LeakyBucket.wait policy key req now rate store
      seen store (now + truncate wait) (LeakyBucket.levelKey key) = 0 ∨
        seen store now (LeakyBucket.tsKey key) ≠ 0 ∧ (truncate wait : ℚ) = wait
  | .concurrency => False
  | .slidingLog => False

/-- After any calls on a clock that has not run past it, a request that may be admitted and is
refused for exceeding the limit is admitted at the time it is told just if its hint is sound. -/
theorem hint_kept_iff (kind : Kind)
    (hinting : kind ∈ [.fixedWindow, .quota, .tokenBucket, .leakyBucket, .slidingCounter])
    (policy : Policy) (key : String) (store : MemoryStore) (before : List InstantCall)
    (req : RequestContext) (now : Int) (retry : Duration) (rate : ℚ)
    (paced : kind.Paced policy.algorithm rate)
    (absent : ∀ rest, (store.cells (key ++ rest)).value = {})
    (inUTC : ∀ call ∈ before, call.now.loc = utc) (passed : ∀ call ∈ before, call.now.nanos ≤ now)
    (fits : cost req policy.algorithm ≤ kind.largest policy.algorithm)
    (hints : kind.hint (visitAfter .exact kind policy key before ⟨req, ⟨now, utc⟩⟩ store).result =
      some retry) :
    HintKept kind policy key req now retry (visited .exact kind policy key before store) ↔
      kind.HintSound policy key req now rate (visited .exact kind policy key before store) := by
  have unset : ∀ name rest : String, (store.cells (key ++ name ++ rest)).value = {} := by
    intro name rest
    rw [String.append_assoc]
    exact absent (name ++ rest)
  cases kind with
  | fixedWindow =>
      exact Windowed.hintKept_iff .fixedWindow
        (fun positive => Windowed.visited_opened positive inUTC passed fun _ => unset _ _) fits hints
  | quota =>
      exact Windowed.hintKept_iff .quota
        (fun positive => Windowed.visited_opened positive inUTC passed fun _ => unset _ _) fits hints
  | slidingCounter =>
      exact SlidingCounter.hintKept_iff
        (SlidingCounter.visited_opened inUTC passed fun _ => unset _ _) fits hints
  | tokenBucket =>
      have empty : (TokenBucket.algorithm policy key).bucket.Holds store.cells none :=
        ⟨absent ":tb:tokens", absent ":tb:ts"⟩
      obtain ⟨last, holds, stamped⟩ := BucketAlgorithm.visited_holds (· ≤ now) empty
        (fun _ member => absurd member (Option.not_mem_none _)) passed
      exact TokenBucket.hintKept_iff paced holds stamped fits hints
  | leakyBucket =>
      have empty : (LeakyBucket.algorithm policy key).bucket.Holds store.cells none :=
        ⟨absent ":lb:level", absent ":lb:ts"⟩
      obtain ⟨last, holds, stamped⟩ := BucketAlgorithm.visited_holds (· ≤ now) empty
        (fun _ member => absurd member (Option.not_mem_none _)) passed
      exact LeakyBucket.hintKept_iff paced holds stamped fits hints
  | concurrency => simp at hinting
  | slidingLog => simp at hinting

private def oneUnit (rate : ℚ) (window : String) : Policy :=
  { algorithm := { limit := 1, refillRate := .fin rate, leakRate := .fin rate, window } }

private def firstCall (seconds : Int) : InstantCall := ⟨{}, ⟨seconds * second, utc⟩⟩

private theorem newSharded_empty (key : String) :
    ((MemoryStore.newSharded 1).cells key).value = {} := rfl

private theorem oneUnit_refill :
    TokenBucket.refillRate .exact (oneUnit 1 "1m").algorithm = .fin 1 := by
  decide +kernel

/-- A second after the only token was taken there is another one. -/
theorem hint_kept_of_second :
    HintKept .tokenBucket (oneUnit 1 "1m") "k" {} second second
      (visited .exact .tokenBucket (oneUnit 1 "1m") "k" [firstCall 1] (.newSharded 1)) :=
  (hint_kept_iff .tokenBucket (by decide) (oneUnit 1 "1m") "k" (.newSharded 1) [firstCall 1] {} second
    second 1 oneUnit_refill (fun _ => newSharded_empty _) (by simp [firstCall])
    (by simp [firstCall]) (by decide) (by decide +kernel)).mpr (.inr (by decide +kernel))

/-- At three units a second the buckets are told to come back a third of a nanosecond early, the
sliding window while its last one still counts in full, and a window without length at once. -/
theorem hints_not_kept :
    (∀ kind ∈ [Kind.tokenBucket, Kind.leakyBucket],
      kind.hint (visitAfter .exact kind (oneUnit 3 "1m") "k" [firstCall 1] (firstCall 1)
          (.newSharded 1)).result = some 333333333 ∧
        ¬HintKept kind (oneUnit 3 "1m") "k" {} second 333333333
          (visited .exact kind (oneUnit 3 "1m") "k" [firstCall 1] (.newSharded 1))) ∧
      (Kind.slidingCounter.hint (visitAfter .exact .slidingCounter (oneUnit 1 "1m") "k" [firstCall 0]
          (firstCall 10) (.newSharded 1)).result = some (50 * second) ∧
        ¬HintKept .slidingCounter (oneUnit 1 "1m") "k" {} (10 * second) (50 * second)
          (visited .exact .slidingCounter (oneUnit 1 "1m") "k" [firstCall 0] (.newSharded 1))) ∧
      Kind.fixedWindow.hint (visitAfter .exact .fixedWindow (oneUnit 1 "0s") "k" [firstCall 1]
        (firstCall 1) (.newSharded 1)).result = some 0 := by
  decide +kernel

end Rlaas.Algorithm
