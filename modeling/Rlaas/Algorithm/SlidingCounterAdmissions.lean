import Rlaas.Algorithm.WindowRuns

/-! What the sliding window counter admits over a run: in one of its windows, and in any
interval of a window's duration. -/

set_option autoImplicit false

namespace Rlaas.Algorithm

open Go Model Store Effect

namespace SlidingCounter

section Grid

variable {cfg : AlgorithmConfig}

/-- Only the start of a week or a month depends on the location of the clock. -/
theorem windowStart_located {now : Time}
    (located : cfg.window = "week" ∨ cfg.window = "month" → now.loc = utc) :
    (windowStart now cfg).nanos = (windowStart ⟨now.nanos, utc⟩ cfg).nanos := by
  by_cases calendar : cfg.window = "week" ∨ cfg.window = "month"
  · rw [← located calendar]
  · obtain ⟨week, month⟩ := not_or.mp calendar
    rw [windowStart, windowStart, if_neg month, if_neg week, if_neg month, if_neg week]
    unfold Time.truncate
    split_ifs
    · rfl
    · rfl

def gridStart (cfg : AlgorithmConfig) (t : Int) : Int := (windowStart ⟨t, utc⟩ cfg).nanos

section

variable (positive : 0 < windowDuration cfg)

include positive

theorem gridStart_mono {t u : Int} (ordered : t ≤ u) :
    gridStart cfg t ≤ gridStart cfg u := by
  by_contra reversed
  have before : gridStart cfg u < gridStart cfg t := not_le.mp reversed
  have begun : gridStart cfg t ≤ t := windowStart_le positive t
  -- Then the earlier instant lies in the window of the later one.
  have same : gridStart cfg t = gridStart cfg u :=
    windowStart_of_mem positive (before.le.trans begun)
      (ordered.trans_lt (lt_windowEnd positive u))
  exact before.ne same.symm

theorem windowEnd_eq (fixed : cfg.window ≠ "month") (t : Int) :
    (windowEnd ⟨t, utc⟩ cfg).nanos = gridStart cfg t + window cfg := by
  have length := windowEnd_sub_windowStart fixed ⟨t, utc⟩
  rw [window_of_pos positive, ← length, gridStart]
  ring

theorem lt_gridStart_add (fixed : cfg.window ≠ "month") (t : Int) :
    t < gridStart cfg t + window cfg :=
  windowEnd_eq positive fixed t ▸ lt_windowEnd positive t

/-- A counter outlives its window, also that of a month of more than thirty days. -/
theorem le_gridStart_add (t : Int) :
    t ≤ gridStart cfg t + 2 * window cfg := by
  have lasting : (0 : Int) < window cfg := window_pos cfg
  by_cases month : cfg.window = "month"
  · have pending := lt_windowEnd positive t
    have bounds := Calendar.monthStart_succ_bounds (Time.month ⟨t, utc⟩)
    rw [windowEnd_month month] at pending
    rw [gridStart, windowStart_month month, window_of_pos positive, windowDuration_month month]
    simp only [monthNanos, dayNanos, hour, minute, second] at pending ⊢
    omega
  · have pending := lt_gridStart_add positive month t
    omega

/-- The window before the one of an instant starts one width earlier. -/
theorem gridStart_sub (fixed : cfg.window ≠ "month") (t : Int) :
    gridStart cfg (t - window cfg) = gridStart cfg t - window cfg := by
  have begun : gridStart cfg t ≤ t := windowStart_le positive t
  have pending := lt_gridStart_add positive fixed t
  have ends : (windowEnd ⟨gridStart cfg t - 1, utc⟩ cfg).nanos = gridStart cfg t :=
    windowEnd_before positive t
  have starts := windowEnd_eq positive fixed (gridStart cfg t - 1)
  rw [ends] at starts
  have own : gridStart cfg (t - window cfg) = gridStart cfg (gridStart cfg t - 1) := by
    refine windowStart_of_mem positive ?_ ?_
    · change gridStart cfg (gridStart cfg t - 1) ≤ t - window cfg
      linarith
    · rw [ends]
      linarith
  rw [own]
  linarith

end

/-- The limiter of a policy whose windows are all of one width. -/
def gridLimiter (policy : Policy) (positive : 0 < windowDuration policy.algorithm)
    (fixed : policy.algorithm.window ≠ "month") : Sliding InstantCall :=
  limiter policy (gridStart policy.algorithm) (windowStart_le positive)
    (lt_gridStart_add positive fixed)

theorem gridLimiter_tiles (policy : Policy) (positive : 0 < windowDuration policy.algorithm)
    (fixed : policy.algorithm.window ≠ "month") : (gridLimiter policy positive fixed).Tiles where
  same t _ low high :=
    windowStart_of_mem positive low ((windowEnd_eq positive fixed t).symm ▸ high)
  shift t := gridStart_sub positive fixed t

end Grid

section Costs

/-- The cost of the admissions at the instants that meet a test. -/
def costAt (test : Int → Prop) [DecidablePred test] (admissions : List Admission) : Int :=
  (admissions.map fun admission => if test admission.time then admission.cost else 0).sum

theorem costAt_snoc (test : Int → Prop) [DecidablePred test] (past : List Admission)
    (last : Admission) :
    costAt test (past ++ [last]) =
      costAt test past + if test last.time then last.cost else 0 := by
  simp [costAt]

theorem costAt_congr {test other : Int → Prop} [DecidablePred test] [DecidablePred other]
    (same : ∀ time, test time ↔ other time) (admissions : List Admission) :
    costAt test admissions = costAt other admissions := by
  simp only [costAt, same]

theorem costAt_admissions {policy : Policy} {positive : 0 < windowDuration policy.algorithm}
    {fixed : policy.algorithm.window ≠ "month"} (test : Int → Prop) [DecidablePred test]
    (calls : List InstantCall) :
    costAt test (calls.map fun call => ⟨call.now.nanos, cost call.req policy.algorithm⟩) =
      (gridLimiter policy positive fixed).total (fun call => test call.now.nanos) calls := by
  rw [costAt, List.map_map]
  rfl

def spentIn (cfg : AlgorithmConfig) (start : Int) (admissions : List Admission) : Int :=
  costAt (fun time => gridStart cfg time = start) admissions

end Costs

section Windows

/-- The admissions so far fit their windows, and the counters of the windows to come hold what
was admitted in them. -/
private structure Tallied (policy : Policy) (key : String) (past : List Admission)
    (rest : List InstantCall) (cells : Cells) : Prop where
  bounded : ∀ start, spentIn policy.algorithm start past ≤ effectiveLimit policy.algorithm
  opened : OpenedCounters (counterAt key) (fun _ => True) (2 * window policy.algorithm) cells
  nonneg : ∀ start, 0 ≤ (cells (counterAt key start)).value.value
  count : ∀ call ∈ rest,
    (cells (counterAt key (gridStart policy.algorithm call.now.nanos))).value.value =
      spentIn policy.algorithm (gridStart policy.algorithm call.now.nanos) past

namespace Tallied

variable {policy : Policy} {key : String} {past : List Admission} {call : InstantCall}
  {rest : List InstantCall} {cells : Cells} {store : MemoryStore}

/-- No call to come is counted in the window before that of the present one. -/
private theorem read (tallied : Tallied policy key past (call :: rest) cells)
    (positive : 0 < windowDuration policy.algorithm)
    (ordered : ∀ later ∈ rest, call.now.nanos ≤ later.now.nanos) :
    Tallied policy key past (call :: rest) (cells.dropExpired call.now.nanos
      (counterAt key
        (gridStart policy.algorithm call.now.nanos - window policy.algorithm))) := by
  have lasting : (0 : Int) < window policy.algorithm := window_pos policy.algorithm
  have apart : ∀ later ∈ call :: rest, counterAt key (gridStart policy.algorithm later.now.nanos) ≠
      counterAt key (gridStart policy.algorithm call.now.nanos - window policy.algorithm) := by
    intro later member same
    have starts := Strings.append_toString_injective same
    have reached : ∀ later ∈ call :: rest, call.now.nanos ≤ later.now.nanos :=
      List.forall_mem_cons.mpr ⟨le_rfl, ordered⟩
    have after := gridStart_mono positive (reached later member)
    omega
  refine ⟨tallied.bounded, tallied.opened.dropExpired _ _, fun start => ?_, fun later member => ?_⟩
  · by_cases same : counterAt key start =
        counterAt key (gridStart policy.algorithm call.now.nanos - window policy.algorithm)
    · rw [same, Cells.dropExpired_value_self]
      rcases ValueItem.live_value_cases call.now.nanos (cells _).value with kept | gone
      · rw [kept]
        exact tallied.nonneg _
      · rw [gone]
    · rw [Cells.dropExpired_other _ same]
      exact tallied.nonneg start
  · rw [Cells.dropExpired_other _ (apart later member)]
    exact tallied.count later member

private theorem seen_nonneg (tallied : Tallied policy key past rest store.cells) {counter : String}
    {start : Int} (named : counter = counterAt key start) (now : Int) :
    0 ≤ seen store now counter := by
  rw [named, seen]
  rcases ValueItem.live_value_cases now (store.cells (counterAt key start)).value with kept | gone
  · rw [kept]
    exact tallied.nonneg start
  · rw [gone]

private theorem fresh (tallied : Tallied policy key past rest cells)
    (positive : 0 < windowDuration policy.algorithm) (t : Int) :
    (cells (counterAt key (gridStart policy.algorithm t))).value.expired t = false :=
  tallied.opened.unexpired (le_gridStart_add positive t)

private theorem add (tallied : Tallied policy key past (call :: rest) cells)
    (positive : 0 < windowDuration policy.algorithm)
    (fits : spentIn policy.algorithm (gridStart policy.algorithm call.now.nanos) past +
      cost call.req policy.algorithm ≤ effectiveLimit policy.algorithm) :
    Tallied policy key (past ++ [⟨call.now.nanos, cost call.req policy.algorithm⟩]) rest
      (cells.store call.now.nanos (2 * window policy.algorithm)
        (counterAt key (gridStart policy.algorithm call.now.nanos))
        (spentIn policy.algorithm (gridStart policy.algorithm call.now.nanos) past +
          cost call.req policy.algorithm)) := by
  have lasting : (0 : Int) < 2 * window policy.algorithm := by
    have width : (0 : Int) < window policy.algorithm := window_pos policy.algorithm
    omega
  have costs := cost_pos call.req policy.algorithm
  have total : spentIn policy.algorithm (gridStart policy.algorithm call.now.nanos)
        (past ++ [⟨call.now.nanos, cost call.req policy.algorithm⟩]) =
      spentIn policy.algorithm (gridStart policy.algorithm call.now.nanos) past +
        cost call.req policy.algorithm := by
    rw [spentIn, costAt_snoc, if_pos rfl]
    rfl
  have others : ∀ start, gridStart policy.algorithm call.now.nanos ≠ start →
      spentIn policy.algorithm start
          (past ++ [⟨call.now.nanos, cost call.req policy.algorithm⟩]) =
        spentIn policy.algorithm start past := fun start other => by
    rw [spentIn, costAt_snoc, if_neg other, add_zero]
    rfl
  have apart : ∀ start, gridStart policy.algorithm call.now.nanos ≠ start →
      counterAt key start ≠ counterAt key (gridStart policy.algorithm call.now.nanos) :=
    fun _ other same => other (Strings.append_toString_injective same).symm
  have held := tallied.nonneg (gridStart policy.algorithm call.now.nanos)
  rw [tallied.count call List.mem_cons_self] at held
  refine ⟨fun start => ?_, tallied.opened.store (fun _ _ => Strings.append_toString_injective) trivial
    (windowStart_le positive _) lasting _, fun start => ?_, fun later member => ?_⟩
  · by_cases own : gridStart policy.algorithm call.now.nanos = start
    · rw [← own, total]
      exact fits
    · rw [others start own]
      exact tallied.bounded start
  · by_cases own : gridStart policy.algorithm call.now.nanos = start
    · rw [← own, Cells.store_value_self, ValueItem.arm_value]
      exact add_nonneg held costs.le
    · rw [Cells.store_other _ _ (apart start own)]
      exact tallied.nonneg start
  · by_cases own : gridStart policy.algorithm call.now.nanos =
        gridStart policy.algorithm later.now.nanos
    · rw [← own, Cells.store_value_self, ValueItem.arm_value, total]
    · rw [Cells.store_other _ _ (apart _ own), others _ own]
      exact tallied.count later (List.mem_cons_of_mem call member)

private theorem step (tallied : Tallied policy key past (call :: rest) store.cells)
    (positive : 0 < windowDuration policy.algorithm)
    (starts : (windowStart call.now policy.algorithm).nanos =
      gridStart policy.algorithm call.now.nanos)
    (ordered : ∀ later ∈ rest, call.now.nanos ≤ later.now.nanos) :
    Tallied policy key
      (past ++ if answered "within_sliding_window"
          (visit .exact .slidingCounter policy key call store).result then
        [⟨call.now.nanos, cost call.req policy.algorithm⟩] else []) rest
      (visit .exact .slidingCounter policy key call store).after.cells := by
  have read := tallied.read positive ordered
  have fresh := tallied.fresh positive call.now.nanos
  have seenCur : seen store call.now.nanos (curKey .exact key call.now policy.algorithm) =
      spentIn policy.algorithm (gridStart policy.algorithm call.now.nanos) past := by
    rw [curKey_eq starts, seen, ValueItem.live_of_unexpired fresh]
    exact tallied.count call List.mem_cons_self
  rcases visit_cases policy key call store with ⟨_, result, cells⟩ | ⟨within, result, cells⟩
  · rw [prevKey_eq starts, curKey_eq starts,
      Cells.dropExpired_of_fresh (read.fresh positive call.now.nanos)] at cells
    have refused : answered "within_sliding_window"
        (visit .exact .slidingCounter policy key call store).result = false := by
      rw [result, answered, overLimitDecision_reason]
      rfl
    rw [refused, cells]
    refine ⟨?_, read.opened, read.nonneg, fun later member => ?_⟩
    · exact (List.append_nil past).symm ▸ read.bounded
    · exact (List.append_nil past).symm ▸ read.count later (List.mem_cons_of_mem call member)
  · rw [prevKey_eq starts, seenCur, curKey_eq starts] at cells
    have admitted : answered "within_sliding_window"
        (visit .exact .slidingCounter policy key call store).result = true := by
      rw [result]
      rfl
    rw [admitted, if_pos rfl, cells]
    refine read.add positive ?_
    have before : (0 : ℚ) ≤
        seen store call.now.nanos (prevKey .exact key call.now policy.algorithm) := by
      exact_mod_cast tallied.seen_nonneg (prevKey_eq starts) call.now.nanos
    have part : 0 ≤ share policy.algorithm call.now := le_max_left 0 _
    have carried := mul_nonneg before part
    rw [seenCur, estimate] at within
    have fits : ((spentIn policy.algorithm (gridStart policy.algorithm call.now.nanos) past +
        cost call.req policy.algorithm : Int) : ℚ) ≤ effectiveLimit policy.algorithm := by linarith
    exact_mod_cast fits

end Tallied

end Windows

/-- Calls on a key that was not used before, by a clock that does not go back. It shows UTC
where the start of a window depends on the location. -/
structure OneClock (policy : Policy) (key : String) (store : MemoryStore)
    (calls : List InstantCall) : Prop where
  absent : ∀ start, (store.cells (counterAt key start)).value = {}
  ordered : calls.Pairwise fun earlier later => earlier.now.nanos ≤ later.now.nanos
  located : policy.algorithm.window = "week" ∨ policy.algorithm.window = "month" →
    ∀ call ∈ calls, call.now.loc = utc

/-- What a run admits, in order. -/
def admissions (policy : Policy) (key : String) (store : MemoryStore) (calls : List InstantCall) :
    List Admission :=
  admissionsOf policy "within_sliding_window"
    (visits .exact .slidingCounter policy key calls store)

section Bounds

variable {policy : Policy} {key : String} {store : MemoryStore} {calls : List InstantCall}

section

variable (clock : OneClock policy key store calls)

include clock

theorem OneClock.starts :
    ∀ call ∈ calls, (windowStart call.now policy.algorithm).nanos =
      gridStart policy.algorithm call.now.nanos := fun call member =>
  windowStart_located fun calendar => clock.located calendar call member

theorem spentIn_le (positive : 0 < windowDuration policy.algorithm) (start : Int) :
    spentIn policy.algorithm start (admissions policy key store calls) ≤
      effectiveLimit policy.algorithm := by
  have initial : Tallied policy key [] calls store.cells := {
    bounded := fun _ => (effectiveLimit_pos policy.algorithm).le
    opened := fun start => .inl (clock.absent start)
    nonneg := fun start => by rw [clock.absent]
    count := fun call _ => by
      rw [clock.absent]
      rfl }
  obtain ⟨final, tallied, _⟩ := serial_remaining (MemoryStore.env .exact)
    (fun call : InstantCall => evaluate .exact policy call.req key) InstantCall.clock
    (fun past rest store =>
      Tallied policy key (admissionsOf policy "within_sliding_window" past) rest store.cells ∧
        (∀ call ∈ rest, (windowStart call.now policy.algorithm).nanos =
          gridStart policy.algorithm call.now.nanos) ∧
        rest.Pairwise fun earlier later => earlier.now.nanos ≤ later.now.nanos)
    (fun past call rest store ⟨tallied, starts, ordered⟩ => by
      obtain ⟨first, later⟩ := List.forall_mem_cons.mp starts
      obtain ⟨next, remaining⟩ := List.pairwise_cons.mp ordered
      rw [admissionsOf_snoc]
      exact ⟨tallied.step positive first next, later, remaining⟩)
    calls [] store ⟨initial, clock.starts, clock.ordered⟩
  exact tallied.bounded start

/-- The instants of a window are those at which calls are counted in it. -/
theorem cost_in_window_le (positive : 0 < windowDuration policy.algorithm) (t : Int) :
    costAt (fun time => (windowStart ⟨t, utc⟩ policy.algorithm).nanos ≤ time ∧
        time < (windowEnd ⟨t, utc⟩ policy.algorithm).nanos) (admissions policy key store calls) ≤
      effectiveLimit policy.algorithm := by
  have counted : ∀ time, (windowStart ⟨t, utc⟩ policy.algorithm).nanos ≤ time ∧
      time < (windowEnd ⟨t, utc⟩ policy.algorithm).nanos ↔
        gridStart policy.algorithm time = gridStart policy.algorithm t := by
    intro time
    constructor
    · rintro ⟨low, high⟩
      exact windowStart_of_mem positive low high
    · intro same
      have ends : windowEnd ⟨time, utc⟩ policy.algorithm = windowEnd ⟨t, utc⟩ policy.algorithm :=
        windowEnd_of_windowStart (by
          rw [windowStart_eq time, windowStart_eq t]
          exact congrArg (Time.mk · utc) same)
      refine ⟨?_, ?_⟩
      · exact same.symm.trans_le (windowStart_le positive time)
      · rw [← ends]
        exact lt_windowEnd positive time
  rw [costAt_congr counted]
  exact spentIn_le clock positive _

theorem cost_in_interval_lt (positive : 0 < windowDuration policy.algorithm)
    (fixed : policy.algorithm.window ≠ "month") (t : Int) :
    costAt (fun time => t - windowDuration policy.algorithm < time ∧ time ≤ t)
        (admissions policy key store calls) < 2 * effectiveLimit policy.algorithm := by
  obtain ⟨_, taken⟩ := visits_decisions (windowStart_le positive)
    (lt_gridStart_add positive fixed) clock.absent clock.starts
  have bounded : (gridLimiter policy positive fixed).Bounded
      (admitted (gridLimiter policy positive fixed).admits [] calls) :=
    admitted_invariant _ (fun _ _ bounded ordered taken => bounded.snoc ordered taken) .nil
      (by simp) clock.ordered
  rw [admissions, admissionsOf_eq, taken, costAt_admissions, ← window_of_pos positive]
  exact bounded.interval_lt (gridLimiter_tiles policy positive fixed) t

end

end Bounds

section Months

private def monthly : Policy := { algorithm := { limit := 1, window := "month" } }

private def onDay (day : Int) : InstantCall := ⟨{}, ⟨day * dayNanos, utc⟩⟩

/-- A call is admitted if it is the first of its month and no month began thirty days before. -/
private theorem answered_onDay {before : List InstantCall} {day : Int} (last : Int)
    (inUTC : ∀ call ∈ before, call.now.loc = utc)
    (passed : ∀ call ∈ before, call.now.nanos ≤ last)
    (first : last < gridStart monthly.algorithm (day * dayNanos))
    (within : gridStart monthly.algorithm
        (gridStart monthly.algorithm (day * dayNanos) - 30 * dayNanos) ≠
      gridStart monthly.algorithm (day * dayNanos) - 30 * dayNanos) :
    answered "within_sliding_window" (visitAfter .exact .slidingCounter monthly "k" before
      (onDay day) (.newSharded 1)).result = true := by
  have opened : OpenedCounters (counterAt "k") (OpenedBy monthly.algorithm last)
      (2 * window monthly.algorithm)
      (visited .exact .slidingCounter monthly "k" before (.newSharded 1)).cells :=
    visited_opened inUTC passed fun _ => rfl
  have unopened : ¬OpenedBy monthly.algorithm last
      (gridStart monthly.algorithm (day * dayNanos) - 30 * dayNanos) := by
    rintro ⟨t, _, same⟩
    have own : gridStart monthly.algorithm (windowStart ⟨t, utc⟩ monthly.algorithm).nanos =
        (windowStart ⟨t, utc⟩ monthly.algorithm).nanos := windowStart_own (by decide) t
    rw [same] at own
    exact within own
  have cur := seen_of_absent (opened.value_of_unopened (not_openedBy first)) (day * dayNanos)
  have prev := seen_of_absent (opened.value_of_unopened unopened) (day * dayNanos)
  refine (answered_iff monthly "k" (onDay day) _).mpr ?_
  change estimate monthly.algorithm {} ⟨day * dayNanos, utc⟩
    (seen _ (day * dayNanos) (counterAt "k" (gridStart monthly.algorithm (day * dayNanos) - _)))
    (seen _ (day * dayNanos) (counterAt "k" (gridStart monthly.algorithm (day * dayNanos)))) ≤ _
  have width : window monthly.algorithm = 30 * dayNanos := by decide
  rw [width, cur, prev, estimate, Int.cast_zero, zero_mul, add_zero, Int.cast_le]
  decide

/-- The last day of January, the first of February and the first of March, 1970. -/
private theorem admissions_monthly :
    admissions monthly "k" (.newSharded 1) [onDay 30, onDay 31, onDay 59] =
      [⟨30 * dayNanos, 1⟩, ⟨31 * dayNanos, 1⟩, ⟨59 * dayNanos, 1⟩] := by
  have january : answered "within_sliding_window" (visitAfter .exact .slidingCounter monthly "k"
      [] (onDay 30) (.newSharded 1)).result = true :=
    answered_onDay (-1) (by simp) (by simp) (by decide +kernel) (by decide +kernel)
  have february : answered "within_sliding_window" (visitAfter .exact .slidingCounter monthly "k"
      [onDay 30] (onDay 31) (.newSharded 1)).result = true :=
    answered_onDay (30 * dayNanos) (by simp [onDay]) (by simp [onDay]) (by decide +kernel)
      (by decide +kernel)
  have march : answered "within_sliding_window" (visitAfter .exact .slidingCounter monthly "k"
      [onDay 30, onDay 31] (onDay 59) (.newSharded 1)).result = true :=
    answered_onDay (31 * dayNanos) (by simp [onDay]) (by decide) (by decide +kernel)
      (by decide +kernel)
  rw [visitAfter, visited_nil] at january
  rw [visitAfter, visited_cons, visited_nil] at february
  rw [visitAfter, visited_cons, visited_cons, visited_nil] at march
  rw [admissions, admissionsOf_visits_cons january, admissionsOf_visits_cons february,
    admissionsOf_visits_cons march]
  rfl

private theorem oneClock_monthly :
    OneClock monthly "k" (.newSharded 1) [onDay 30, onDay 31, onDay 59] where
  absent _ := rfl
  ordered := by decide
  located _ := by simp [onDay]

end Months

private def pairs : Policy := { algorithm := { limit := 2, window := "1m" } }

end SlidingCounter

end Rlaas.Algorithm
