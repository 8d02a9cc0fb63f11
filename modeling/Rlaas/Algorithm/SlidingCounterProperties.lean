import Rlaas.Algorithm.SlidingCounterAdmissions

/-! What the sliding window counter does when the window is not positive: it falls back
to the width of a minute, but not to the windows of a minute. -/

set_option autoImplicit false

namespace Rlaas.Algorithm

open Go Model Store Effect

namespace SlidingCounter

section Fallback

variable {cfg : AlgorithmConfig}

def isAllowed : Answer → Bool
  | .ok decision => decision.allowed
  | .error _ => false

/-- Whether the policy's action lets a call pass that is over the limit. -/
def overAllowed (policy : Policy) : Bool := (overLimitDecision policy ⟨0, utc⟩ 0 0 "").allowed

theorem overLimitDecision_allowed (policy : Policy) (clock : Time) (retryAfter : Duration)
    (remaining : Int) (reason : String) :
    (overLimitDecision policy clock retryAfter remaining reason).allowed = overAllowed policy := by
  unfold overAllowed overLimitDecision
  cases policy.action <;> rfl

theorem visit_allowed (policy : Policy) (key : String) (call : InstantCall) (store : MemoryStore) :
    isAllowed (visit .exact .slidingCounter policy key call store).result =
      (answered "within_sliding_window" (visit .exact .slidingCounter policy key call store).result ||
        overAllowed policy) := by
  rcases visit_cases policy key call store with ⟨_, result, _⟩ | ⟨_, result, _⟩
  · rw [result, isAllowed, overLimitDecision_allowed, answered, overLimitDecision_reason]
    rfl
  · rw [result]
    rfl

theorem visits_allowed (policy : Policy) (key : String) (calls : List InstantCall)
    (store : MemoryStore) :
    (visits .exact .slidingCounter policy key calls store).map (fun turn => isAllowed turn.result) =
      ((visits .exact .slidingCounter policy key calls store).map fun turn =>
        answered "within_sliding_window" turn.result).map (· || overAllowed policy) := by
  rw [List.map_map]
  refine List.map_congr_left fun done member => ?_
  obtain ⟨call, before, rfl⟩ := exists_turn_of_mem_serial _ _ _ member
  exact visit_allowed policy key call before

/-- The policy with the window that the fallback stands for. -/
def withMinute (policy : Policy) : Policy :=
  { policy with algorithm := { policy.algorithm with window := "1m" } }

def minuteStart (t : Int) : Int := gridStart { window := "1m" } t

/-- A window setting that parses to no positive duration. -/
def Nonpositive (window : String) : Prop := ∃ d, parseDuration window = some d ∧ d ≤ 0

theorem Nonpositive.ne {window other : String} (unset : Nonpositive window)
    (unparsed : parseDuration other = none) : window ≠ other := by
  rintro rfl
  obtain ⟨d, parsed, _⟩ := unset
  rw [unparsed] at parsed
  cases parsed

theorem Nonpositive.windowDuration_le (unset : Nonpositive cfg.window) :
    windowDuration cfg ≤ 0 := by
  have named := unset.ne (by decide : parseDuration "" = none)
  obtain ⟨d, parsed, nonpositive⟩ := unset
  rw [windowDuration, if_neg named, parsed]
  exact nonpositive

theorem Nonpositive.window_eq (unset : Nonpositive cfg.window) :
    window cfg = minute :=
  if_pos unset.windowDuration_le

def instantLimiter (policy : Policy) : Sliding InstantCall :=
  limiter policy id le_refl fun t => lt_add_of_pos_right t (window_pos policy.algorithm)

theorem windowDuration_minute (minutely : cfg.window = "1m") :
    windowDuration cfg = minute := by
  have parsed : parseDuration "1m" = some minute := by decide
  simp [windowDuration, minutely, parsed]

theorem windowDuration_withMinute (policy : Policy) :
    0 < windowDuration (withMinute policy).algorithm := by
  rw [windowDuration_minute rfl]
  decide

theorem withMinute_fixed (policy : Policy) : (withMinute policy).algorithm.window ≠ "month" := by
  simp [withMinute]

def minuteLimiter (policy : Policy) : Sliding InstantCall :=
  gridLimiter (withMinute policy) (windowDuration_withMinute policy) (withMinute_fixed policy)

theorem minuteLimiter_width (policy : Policy) : (minuteLimiter policy).width = minute :=
  (window_of_pos (windowDuration_withMinute policy)).trans (windowDuration_minute rfl)

/-- An admission counts for a later call in the same way in both limiters. -/
def Coincide (earlier later : Int) : Prop :=
  (minuteStart earlier = minuteStart later → earlier = later) ∧
    (minuteStart earlier = minuteStart later - minute →
      earlier = later - minute ∧ later = minuteStart later)

instance (earlier later : Int) : Decidable (Coincide earlier later) :=
  inferInstanceAs (Decidable (_ ∧ _))

section Coincidence

variable {policy : Policy} {past : List InstantCall} {call : InstantCall}

theorem instantLimiter_load (unset : Nonpositive policy.algorithm.window) :
    (instantLimiter policy).load past call =
      (((minuteLimiter policy).total (fun earlier => earlier.now.nanos = call.now.nanos) past +
          cost call.req policy.algorithm : Int) : ℚ) +
        (minuteLimiter policy).total
          (fun earlier => earlier.now.nanos = call.now.nanos - minute) past := by
  have width : (instantLimiter policy).width = minute := unset.window_eq
  have weight : (instantLimiter policy).weight call.now.nanos = 1 := Sliding.weight_of_own _ rfl
  have timed : (instantLimiter policy).time call = call.now.nanos := rfl
  rw [Sliding.load, timed, weight, width, mul_one]
  rfl

theorem minuteLimiter_start (policy : Policy) (t : Int) :
    (minuteLimiter policy).start t = minuteStart t := by
  change gridStart (withMinute policy).algorithm t = gridStart { window := "1m" } t
  unfold gridStart windowStart
  rw [windowDuration_minute rfl, windowDuration_minute rfl]
  rfl

theorem minuteLimiter_load :
    (minuteLimiter policy).load past call =
      (((minuteLimiter policy).total
            (fun earlier => minuteStart earlier.now.nanos = minuteStart call.now.nanos) past +
          cost call.req policy.algorithm : Int) : ℚ) +
        (minuteLimiter policy).total
            (fun earlier => minuteStart earlier.now.nanos = minuteStart call.now.nanos - minute)
            past * (minuteLimiter policy).weight call.now.nanos := by
  have timed : ∀ other, (minuteLimiter policy).time other = other.now.nanos := fun _ => rfl
  simp only [Sliding.load, Sliding.spent, timed, minuteLimiter_width, minuteLimiter_start]
  rfl

theorem minuteStart_sub (t : Int) : minuteStart (t - minute) = minuteStart t - minute := by
  have shifted := (gridLimiter_tiles (withMinute {}) (windowDuration_withMinute {})
    (withMinute_fixed {})).shift t
  change (minuteLimiter {}).start (t - (minuteLimiter {}).width) =
    (minuteLimiter {}).start t - (minuteLimiter {}).width at shifted
  rwa [minuteLimiter_width, minuteLimiter_start, minuteLimiter_start] at shifted

theorem load_of_coincide (unset : Nonpositive policy.algorithm.window)
    (related : ∀ earlier ∈ past, Coincide earlier.now.nanos call.now.nanos) :
    (instantLimiter policy).load past call = (minuteLimiter policy).load past call := by
  have own : (minuteLimiter policy).total
        (fun earlier => earlier.now.nanos = call.now.nanos) past =
      (minuteLimiter policy).total
        (fun earlier => minuteStart earlier.now.nanos = minuteStart call.now.nanos) past :=
    Sliding.total_congr fun earlier member =>
      ⟨fun same => congrArg minuteStart same, (related earlier member).1⟩
  have before : (minuteLimiter policy).total
        (fun earlier => earlier.now.nanos = call.now.nanos - minute) past =
      (minuteLimiter policy).total
        (fun earlier => minuteStart earlier.now.nanos = minuteStart call.now.nanos - minute) past :=
    Sliding.total_congr fun earlier member =>
      ⟨fun same => by rw [same, minuteStart_sub], fun same => ((related earlier member).2 same).1⟩
  rw [instantLimiter_load unset, minuteLimiter_load, own, before]
  by_cases used : ∃ earlier ∈ past,
      minuteStart earlier.now.nanos = minuteStart call.now.nanos - minute
  · obtain ⟨earlier, member, carried⟩ := used
    have opening := ((related earlier member).2 carried).2
    have weight : (minuteLimiter policy).weight call.now.nanos = 1 :=
      Sliding.weight_of_own _ ((minuteLimiter_start policy _).trans opening.symm)
    rw [weight, mul_one]
  · have none : (minuteLimiter policy).total
        (fun earlier => minuteStart earlier.now.nanos = minuteStart call.now.nanos - minute)
          past = 0 :=
      Sliding.total_eq_zero fun earlier member carried => used ⟨earlier, member, carried⟩
    rw [none, Int.cast_zero, zero_mul]

end Coincidence

section Probe

/-- Policies and calls that tell the two limiters apart: the limit is so high that a part of it
is lost even a nanosecond into a window. -/
def probe (window : String) : Policy :=
  { action := .deny, algorithm := { window, limit := minute } }

def ask (now : Time) (quantity : Int) : InstantCall := ⟨{ quantity }, now⟩

variable {window : String} {early late : Time} {quantity : Int}

theorem cost_ask (free : cfg.costPerRequest = 0) (positive : 0 < quantity) :
    cost (ask late quantity).req cfg = quantity := by
  rw [cost, free, if_neg (lt_irrefl 0)]
  exact if_pos positive

theorem probe_limit (window : String) : effectiveLimit (probe window).algorithm = minute :=
  if_neg (show ¬minute ≤ 0 by decide)

theorem total_ask (test : InstantCall → Prop) [DecidablePred test] :
    (minuteLimiter (probe window)).total test [ask early minute] =
      if test (ask early minute) then minute else 0 := by
  have amount : (minuteLimiter (probe window)).amount (ask early minute) = minute := by
    change cost (ask early minute).req (withMinute (probe window)).algorithm = minute
    exact cost_ask rfl (by decide)
  rw [Sliding.total, List.map_singleton, List.sum_singleton, amount]

/-- What is still counted of a limit that was used up in the window before. -/
theorem carried_minute (window : String) (t : Int) (carried : Prop) [Decidable carried] :
    ((if carried then minute else 0 : Int) : ℚ) * (minuteLimiter (probe window)).weight t =
      ((if carried then minute - (t - minuteStart t) else 0 : Int) : ℚ) := by
  have width : ((minute : Int) : ℚ) ≠ 0 := Int.cast_ne_zero.mpr (by decide)
  split
  · rw [Sliding.weight, minuteLimiter_width, minuteLimiter_start]
    exact mul_div_cancel₀ _ width
  · rw [Int.cast_zero, zero_mul]

/-- What the two limiters decide about a call after one admission that filled the limit. -/
theorem admits_ask (unset : Nonpositive window) (positive : 0 < quantity) :
    (instantLimiter (probe window)).admits [ask early minute] (ask late quantity) =
        decide ((if early.nanos = late.nanos then minute else 0 : Int) + quantity +
          (if early.nanos = late.nanos - minute then minute else 0 : Int) ≤ minute) ∧
      (minuteLimiter (probe window)).admits [ask early minute] (ask late quantity) =
        decide ((if minuteStart early.nanos = minuteStart late.nanos then minute else 0 : Int) +
          quantity + (if minuteStart early.nanos = minuteStart late.nanos - minute then
            minute - (late.nanos - minuteStart late.nanos) else 0 : Int) ≤ minute) := by
  have limit : (instantLimiter (probe window)).limit = minute := probe_limit window
  have limit' : (minuteLimiter (probe window)).limit = minute := probe_limit window
  have probed : Nonpositive (probe window).algorithm.window := unset
  constructor
  · rw [Sliding.admits, instantLimiter_load probed, total_ask, total_ask, cost_ask rfl positive,
      limit]
    refine decide_eq_decide.mpr ?_
    rw [← Int.cast_add, Int.cast_le]
    rfl
  · rw [Sliding.admits, minuteLimiter_load, total_ask, total_ask, cost_ask rfl positive, limit']
    refine decide_eq_decide.mpr ?_
    rw [carried_minute, ← Int.cast_add, Int.cast_le]
    rfl

/-- Two limiters that agree about what may follow a call that used up the limit. -/
theorem coincide_of_agree (unset : Nonpositive window)
    (agree : ∀ quantity, 0 < quantity →
      (instantLimiter (probe window)).admits [ask early minute] (ask late quantity) =
        (minuteLimiter (probe window)).admits [ask early minute] (ask late quantity)) :
    Coincide early.nanos late.nanos := by
  have positive : (0 : Int) < minute := by decide
  have begun := (minuteLimiter (probe window)).begun late.nanos
  have pending := (minuteLimiter (probe window)).pending late.nanos
  rw [minuteLimiter_start] at begun pending
  rw [minuteLimiter_width] at pending
  have whole := agree minute positive
  have unit := agree 1 one_pos
  rw [(admits_ask unset positive).1, (admits_ask unset positive).2, decide_eq_decide] at whole
  rw [(admits_ask unset one_pos).1, (admits_ask unset one_pos).2, decide_eq_decide] at unit
  have shifted : early.nanos = late.nanos - minute →
      minuteStart early.nanos = minuteStart late.nanos - minute := fun apart => by
    rw [apart, minuteStart_sub]
  have equal : early.nanos = late.nanos → minuteStart early.nanos = minuteStart late.nanos :=
    congrArg minuteStart
  refine ⟨fun same => ?_, fun before => ?_⟩
  · by_contra differ
    rw [if_neg differ, if_pos same, if_neg (by omega), if_neg (by omega)] at whole
    omega
  · have apart : early.nanos = late.nanos - minute := by
      by_contra differ
      rw [if_neg (by omega), if_neg differ, if_neg (by omega), if_pos before] at whole
      omega
    rw [if_neg (by omega), if_pos apart, if_neg (by omega), if_pos before] at unit
    omega

theorem refused_ask (window : String) {sliding : Sliding InstantCall}
    (limit : sliding.limit = minute)
    (amount : ∀ call, sliding.amount call = cost call.req (probe window).algorithm)
    (instants : List Time) :
    ∀ call ∈ instants.map (ask · (minute + 1)), ∀ past, sliding.admits past call = false := by
  intro call member past
  obtain ⟨now, _, rfl⟩ := List.mem_map.mp member
  refine Sliding.admits_of_limit_lt ?_ past
  rw [limit, amount, cost_ask rfl (by decide)]
  decide

theorem admits_first (window : String) {sliding : Sliding InstantCall}
    (limit : sliding.limit = minute)
    (amount : ∀ call, sliding.amount call = cost call.req (probe window).algorithm) :
    sliding.admits [] (ask early minute) = true := by
  rw [Sliding.admits_nil, limit, amount, cost_ask rfl (by decide)]
  decide

end Probe

section Decide

variable {policy : Policy} {key : String} {store : MemoryStore}

theorem allowed_fallback (unset : Nonpositive policy.algorithm.window)
    (absent : ∀ start, (store.cells (counterAt key start)).value = {}) (calls : List InstantCall) :
    (visits .exact .slidingCounter policy key calls store).map (fun turn => isAllowed turn.result) =
      (decisions (instantLimiter policy).admits [] calls).map (· || overAllowed policy) := by
  have starts : ∀ call ∈ calls,
      (windowStart call.now policy.algorithm).nanos = id call.now.nanos := fun call _ =>
    congrArg Time.nanos (windowStart_of_nonpositive unset.windowDuration_le call.now)
  rw [visits_allowed, (visits_decisions _ _ absent starts).1]
  rfl

theorem allowed_minute (absent : ∀ start, (store.cells (counterAt key start)).value = {})
    (calls : List InstantCall) :
    (visits .exact .slidingCounter (withMinute policy) key calls store).map
        (fun turn => isAllowed turn.result) =
      (decisions (minuteLimiter policy).admits [] calls).map (· || overAllowed policy) := by
  have starts : ∀ call ∈ calls, (windowStart call.now (withMinute policy).algorithm).nanos =
      gridStart (withMinute policy).algorithm call.now.nanos := fun call _ =>
    windowStart_located fun calendar => absurd calendar (by simp [withMinute])
  rw [visits_allowed, (visits_decisions _ _ absent starts).1]
  rfl

end Decide

/-- The fallback decides as a window of a minute does at these instants, for every policy and
all requests, just if no two of them are counted differently. -/
theorem fallback_decides_as_minute_iff {window : String} (unset : Nonpositive window) (key : String)
    (instants : List Time) :
    (∀ (policy : Policy) (calls : List InstantCall) (store : MemoryStore),
        policy.algorithm.window = window → calls.map InstantCall.now = instants →
        (∀ start, (store.cells (counterAt key start)).value = {}) →
        (visits .exact .slidingCounter policy key calls store).map
            (fun turn => isAllowed turn.result) =
          (visits .exact .slidingCounter (withMinute policy) key calls store).map
            (fun turn => isAllowed turn.result)) ↔
      instants.Pairwise fun earlier later => Coincide earlier.nanos later.nanos := by
  constructor
  · intro alike
    refine List.pairwise_iff_forall_sublist.mpr fun {early late} listed => ?_
    obtain ⟨front, middle, back, rfl⟩ := exists_split_of_sublist listed
    have probed : Nonpositive (probe window).algorithm.window := unset
    refine coincide_of_agree unset fun quantity positive => ?_
    -- All but the two calls ask for more than the limit.
    have same := alike (probe window)
      (front.map (ask · (minute + 1)) ++ ask early minute ::
        (middle.map (ask · (minute + 1)) ++ ask late quantity :: back.map (ask · 1)))
      (.newSharded 1) rfl (by simp [ask, Function.comp_def]) fun _ => rfl
    rw [allowed_fallback probed fun _ => rfl, allowed_minute fun _ => rfl] at same
    have denied : overAllowed (probe window) = false := rfl
    simp only [denied, Bool.or_false, List.map_id'] at same
    refine agree_after_one ?_ ?_ ?_ ?_ same
    · rw [← List.map_append]
      exact refused_ask window (probe_limit window) (fun _ => rfl) _
    · rw [← List.map_append]
      exact refused_ask window (probe_limit window) (fun _ => rfl) _
    · exact admits_first window (probe_limit window) fun _ => rfl
    · exact admits_first window (probe_limit window) fun _ => rfl
  · intro coincide policy calls store named timed absent
    subst named timed
    rw [allowed_fallback unset absent, allowed_minute absent]
    congr 1
    refine decisions_congr (fun past call related => ?_) (by simp) (List.pairwise_map.mp coincide)
    rw [Sliding.admits, Sliding.admits, load_of_coincide unset related]
    rfl

private def single (window : String) : Policy :=
  { action := .deny, algorithm := { limit := 1, window } }

/-- Two calls at the starts of two minutes. -/
theorem fallback_decides_as_minute_of_starts :
    Nonpositive "-5s" ∧
      (visits .exact .slidingCounter (single "-5s") "k" [callAt 60 1, callAt 120 1]
          (.newSharded 1)).map (fun turn => isAllowed turn.result) =
        (visits .exact .slidingCounter (withMinute (single "-5s")) "k" [callAt 60 1, callAt 120 1]
          (.newSharded 1)).map (fun turn => isAllowed turn.result) :=
  ⟨⟨-5 * second, by decide, by decide⟩,
    (fallback_decides_as_minute_iff ⟨-5 * second, by decide, by decide⟩ "k"
      [⟨60 * second, utc⟩, ⟨120 * second, utc⟩]).mpr (by decide) _ _ _ rfl rfl fun _ => rfl⟩

/-- A second later the fallback has forgotten the first call. -/
theorem fallback_forgets_after_a_second :
    Nonpositive "0s" ∧
      (visits .exact .slidingCounter (single "0s") "k" [callAt 60 1, callAt 61 1]
          (.newSharded 1)).map (fun turn => isAllowed turn.result) = [true, true] ∧
        (visits .exact .slidingCounter (withMinute (single "0s")) "k" [callAt 60 1, callAt 61 1]
          (.newSharded 1)).map (fun turn => isAllowed turn.result) = [true, false] := by
  have unset : Nonpositive (single "0s").algorithm.window := ⟨0, by decide, le_rfl⟩
  refine ⟨unset, ?_, ?_⟩
  · rw [allowed_fallback unset fun _ => rfl]
    decide +kernel
  · rw [allowed_minute fun _ => rfl]
    decide +kernel

end Fallback

end SlidingCounter

end Rlaas.Algorithm
