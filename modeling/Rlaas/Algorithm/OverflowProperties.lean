import Rlaas.Algorithm.WindowProperties
import Rlaas.Lib.Serial

/-! The counters in machine arithmetic. As long as no sum of a stored count and
a cost wraps around or is rounded down to the limit, every counter stays
between zero and the limit. -/

set_option autoImplicit false

namespace Rlaas.Algorithm

open Go Model Store Effect Rounding

namespace SlidingCounter

theorem window_bounds (cfg : AlgorithmConfig) : 0 < window cfg ∧ window cfg < 2 ^ 63 := by
  unfold window
  split
  · decide
  · next positive => exact ⟨not_le.mp positive, windowDuration_lt cfg⟩

/-- The clamped quotient of an `int64` and a divisor of at least one is a
number that is not negative. -/
theorem weight_machine (now : Time) (cfg : AlgorithmConfig) :
    ∃ w : ℚ, 0 ≤ w ∧ weight Arith.machine now cfg = .fin w := by
  obtain ⟨positive, bounded⟩ := window_bounds cfg
  have unit : (1 : ℚ) ≤ round64 (window cfg) := by
    have one : round64 ((1 : Int) : ℚ) = (1 : Int) := round64_intCast (by decide) (by decide)
    rw [Int.cast_one] at one
    rw [← one]
    exact round64_mono (by norm_num) (by exact_mod_cast positive)
  have nonzero : round64 (window cfg : ℚ) ≠ 0 := ne_of_gt (lt_of_lt_of_le one_pos unit)
  unfold weight
  simp only [GoFloat.ofInt_machine (le_of_lt positive) (le_of_lt bounded), machine_wrap]
  generalize remains : wrapInt64 (window cfg - (now.nanos - (windowStart now cfg).nanos)) = n
  have below : n < 2 ^ 63 := by
    rw [← remains, wrapInt64]
    omega
  rcases le_or_gt 0 n with nonneg | negative
  · have numerator : (0 : ℚ) ≤ round64 n := round64_nonneg (by exact_mod_cast nonneg)
    have top : round64 (n : ℚ) ≤ 2 ^ 63 := by
      rw [← round64_two_pow_63]
      exact round64_mono (by exact_mod_cast nonneg) (by exact_mod_cast le_of_lt below)
    have quotient : round64 (n : ℚ) / round64 (window cfg) ≤ 2 ^ 63 :=
      (div_le_self numerator unit).trans top
    have quotientNonneg : 0 ≤ round64 (n : ℚ) / round64 (window cfg) :=
      div_nonneg numerator (zero_le_one.trans unit)
    have rounded := round64_nonneg quotientNonneg
    refine ⟨round64 (round64 n / round64 (window cfg)), rounded, ?_⟩
    simp [GoFloat.ofInt_machine nonneg (le_of_lt below), GoFloat.div, nonzero,
      roundFloat64_of_le quotientNonneg quotient, not_lt.mpr rounded]
  · refine ⟨0, le_refl _, ?_⟩
    have nonpos : (n : ℚ) ≤ 0 := by exact_mod_cast le_of_lt negative
    simp only [GoFloat.ofInt, machine_round]
    rcases roundFloat64_cases_of_nonpos nonpos with infinite | finite
    · have past : ¬round64 (window cfg : ℚ) < 0 := not_lt.mpr (zero_le_one.trans unit)
      simp [infinite, GoFloat.div, GoFloat.lt, past]
    · have quotient : round64 (n : ℚ) / round64 (window cfg) ≤ 0 :=
        div_nonpos_of_nonpos_of_nonneg (round64_nonpos nonpos) (zero_le_one.trans unit)
      simp only [finite, GoFloat.div, nonzero, if_false, machine_round]
      rcases roundFloat64_cases_of_nonpos quotient with infinite | finite
      · simp [infinite, GoFloat.lt]
      · rcases eq_or_lt_of_le (round64_nonpos quotient) with zero | less
        · simp [finite, zero]
        · simp [finite, less]

/-- Without wrap-around the estimate is no less than the rounded sum of the
current count and the cost, and so is every limit it does not exceed. -/
theorem lt_of_estimated {policy : Policy} {req : RequestContext} {now : Time} {prev cur : Int}
    {limit : ℚ} (prevRange : 0 ≤ prev ∧ prev ≤ 2 ^ 63)
    (sum : 0 ≤ cur + cost req policy.algorithm ∧ cur + cost req policy.algorithm < 2 ^ 63)
    (within : (GoFloat.fin limit).lt (estimated Arith.machine policy req now prev cur) = false) :
    (GoFloat.fin limit).lt
      (GoFloat.ofInt Arith.machine (cur + cost req policy.algorithm)) = false := by
  obtain ⟨w, nonneg, weighed⟩ := weight_machine now policy.algorithm
  have unwrapped : Arith.machine.wrap (cur + cost req policy.algorithm) =
      cur + cost req policy.algorithm := wrapInt64_of_isInt64 ⟨by omega, sum.2⟩
  have sumNonneg : (0 : ℚ) ≤ (cur + cost req policy.algorithm : Int) := by exact_mod_cast sum.1
  rw [estimated, unwrapped, weighed, GoFloat.ofInt_machine prevRange.1 prevRange.2,
    GoFloat.ofInt_machine sum.1 (le_of_lt sum.2)] at within
  rw [GoFloat.ofInt_machine sum.1 (le_of_lt sum.2)]
  have product : 0 ≤ round64 (prev : ℚ) * w :=
    mul_nonneg (round64_nonneg (by exact_mod_cast prevRange.1)) nonneg
  simp only [GoFloat.mul, machine_round] at within
  rcases roundFloat64_cases product with infinite | finite
  · rw [infinite] at within
    simp [GoFloat.add, GoFloat.lt] at within
  · rw [finite] at within
    simp only [GoFloat.add, machine_round] at within
    have addend := round64_nonneg product
    have base := round64_nonneg sumNonneg
    rcases roundFloat64_cases (add_nonneg base addend) with infinite | finite
    · rw [infinite] at within
      simp [GoFloat.lt] at within
    · rw [finite] at within
      have grows := round64_mono base (le_add_of_nonneg_right addend)
      rw [round64_idem sumNonneg] at grows
      simp only [GoFloat.lt_fin, decide_eq_false_iff_not, not_lt] at within ⊢
      exact grows.trans within

def swap (A : Arith) (policy : Policy) (req : RequestContext) (key : String) (timely : Time → Prop)
    (credible : Int → Prop) : Swap where
  arith := A
  key now := counterKey A key (windowStart now policy.algorithm)
  cost := cost req policy.algorithm
  ttl := A.wrap (2 * window policy.algorithm)
  timely
  credible
  fits now value := ∃ prevCount, credible prevCount ∧
    (limit A policy.algorithm).lt (estimated A policy req now prevCount value) = false
  within := "within_sliding_window"

theorem evaluate_swaps (A : Arith) (policy : Policy) (req : RequestContext) (key : String)
    (timely : Time → Prop) (credible : Int → Prop) :
    (swap A policy req key timely credible).monitor.Accepts {} (evaluate A policy req key) := by
  refine ⟨⟨rfl, trivial⟩, fun now expected => ?_⟩
  refine accepts_attempt ⟨rfl, trivial⟩ swap_fails fun prevCount believed => ?_
  exact counterLoop_swaps (swap A policy req key timely credible)
    (rule A policy req key now prevCount) expected rfl rfl rfl
    (fun value _ checked => ⟨prevCount, believed, checked⟩)
    (by simp [rule, swap]) (by simp [rule, swap]) (fun _ => rfl) _

end SlidingCounter

inductive Counting where
  | windowed (alg : Windowed)
  | sliding
  deriving DecidableEq

namespace Counting

def evaluate (A : Arith) (policy : Policy) (req : RequestContext) (key : String) :
    Counting → Evaluation Answer
  | .windowed alg => alg.evaluate A policy req key
  | .sliding => SlidingCounter.evaluate A policy req key

def within : Counting → String
  | .windowed alg => alg.within
  | .sliding => "within_sliding_window"

def swap (A : Arith) (policy : Policy) (req : RequestContext) (key : String) (timely : Time → Prop)
    (credible : Int → Prop) : Counting → Swap
  | .windowed alg => alg.swap A policy req key timely credible
  | .sliding => SlidingCounter.swap A policy req key timely credible

theorem evaluate_swaps (A : Arith) (policy : Policy) (req : RequestContext) (key : String)
    (timely : Time → Prop) (credible : Int → Prop) (alg : Counting) :
    (alg.swap A policy req key timely credible).monitor.Accepts {}
      (alg.evaluate A policy req key) := by
  cases alg with
  | windowed alg => exact alg.evaluate_swaps A policy req key timely credible
  | sliding => exact SlidingCounter.evaluate_swaps A policy req key timely credible

end Counting

structure CountingCall where
  alg : Counting
  key : String
  req : RequestContext
  clock : Nat → Time

def countingTurns (policy : Policy) (calls : List CountingCall) (store : MemoryStore) :
    List (Turn EnvOp EnvRes CountingCall Answer MemoryStore) :=
  serial (MemoryStore.env Arith.machine)
    (fun call : CountingCall => call.alg.evaluate Arith.machine policy call.req call.key)
    CountingCall.clock calls store

/-- The stored count a call's swap found and replaced. -/
def countSwapped (events : List (Event EnvOp EnvRes)) : Option Int :=
  (events.foldl (fun progress event => progress.record event.op event.result) ({} : Progress)).taken

def CountersWithin (limit : Int) (cells : Cells) : Prop :=
  ∀ storageKey, 0 ≤ (cells storageKey).value.value ∧ (cells storageKey).value.value ≤ limit

/-- The counters are within the limit after a call, and so was the exact sum of
count and cost if the call was admitted. -/
structure CountersBounded (policy : Policy)
    (turn : Turn EnvOp EnvRes CountingCall Answer MemoryStore) : Prop where
  stored : CountersWithin policy.algorithm.limit turn.after.cells
  admitted : ∀ decision, turn.result = .ok decision → decision.reason = turn.call.alg.within →
    ∃ count, countSwapped turn.events = some count ∧
      count + cost turn.call.req policy.algorithm ≤ policy.algorithm.limit

/-- The count a call replaces does not wrap around with its cost and, for the
sliding counter, a sum above the limit is not rounded down to it. -/
def Faithful (policy : Policy) (alg : Counting) (req : RequestContext) (count : Int) : Prop :=
  count + cost req policy.algorithm < 2 ^ 63 ∧
    (alg = .sliding → policy.algorithm.limit < count + cost req policy.algorithm →
      (GoFloat.ofInt Arith.machine policy.algorithm.limit).lt
        (GoFloat.ofInt Arith.machine (count + cost req policy.algorithm)) = true)

section Machine

variable {policy : Policy} {req : RequestContext} {key : String}

theorem effectiveLimit_of_pos {cfg : AlgorithmConfig} (positive : 1 ≤ cfg.limit) :
    effectiveLimit cfg = cfg.limit := by
  unfold effectiveLimit
  rw [if_neg (by omega)]

theorem SlidingCounter.limit_machine {cfg : AlgorithmConfig} (positive : 1 ≤ cfg.limit)
    (range : cfg.limit < 2 ^ 63) : limit Arith.machine cfg = .fin (round64 cfg.limit) := by
  have one : round64 ((1 : Int) : ℚ) = (1 : Int) := round64_intCast (by decide) (by decide)
  rw [Int.cast_one] at one
  have least : (1 : ℚ) ≤ round64 cfg.limit := by
    rw [← one]
    exact round64_mono (by norm_num) (by exact_mod_cast positive)
  have above : ¬round64 (cfg.limit : ℚ) ≤ 0 := not_le.mpr (lt_of_lt_of_le one_pos least)
  simp [limit, GoFloat.ofInt_machine (by omega) (le_of_lt range), above]

private theorem sum_le_limit {alg : Counting} {now : Time} {count : Int}
    (positive : 1 ≤ policy.algorithm.limit) (range : policy.algorithm.limit < 2 ^ 63)
    (credible : 0 ≤ count ∧ count ≤ policy.algorithm.limit)
    (fits : (alg.swap Arith.machine policy req key (fun _ => True)
      (fun value => 0 ≤ value ∧ value ≤ policy.algorithm.limit)).fits now count)
    (faithful : Faithful policy alg req count) :
    count + cost req policy.algorithm ≤ policy.algorithm.limit := by
  have costs := cost_pos req policy.algorithm
  obtain ⟨unwrapped, rounded⟩ := faithful
  cases alg with
  | windowed alg =>
      have checked : wrapInt64 (count + cost req policy.algorithm) ≤
        effectiveLimit policy.algorithm := fits
      rwa [wrapInt64_of_isInt64 ⟨by omega, unwrapped⟩, effectiveLimit_of_pos positive] at checked
  | sliding =>
      obtain ⟨prevCount, believed, checked⟩ := fits
      rw [SlidingCounter.limit_machine positive range] at checked
      have within := SlidingCounter.lt_of_estimated ⟨believed.1, by omega⟩
        ⟨by omega, unwrapped⟩ checked
      refine not_lt.mp fun exceeds => ?_
      have refused := rounded rfl exceeds
      rw [GoFloat.ofInt_machine (by omega) (le_of_lt range), within] at refused
      cases refused

private theorem CountersWithin.live {limit : Int} {cells : Cells}
    (stored : CountersWithin limit cells) (now : Int) (storageKey : String) :
    0 ≤ ((cells storageKey).value.live now).value ∧
      ((cells storageKey).value.live now).value ≤ limit := by
  have bounds := stored storageKey
  rcases (cells storageKey).value.live_value_cases now with same | dropped
  · rw [same]
    exact bounds
  · rw [dropped]
    exact ⟨le_refl _, bounds.1.trans bounds.2⟩

private theorem CountersWithin.update {limit : Int} {cells : Cells}
    (stored : CountersWithin limit cells) (other : String) {cell : Cell}
    (bounds : 0 ≤ cell.value.value ∧ cell.value.value ≤ limit) :
    CountersWithin limit (Function.update cells other cell) := by
  intro storageKey
  by_cases own : storageKey = other
  · subst own
    rw [Function.update_self]
    exact bounds
  · rw [Function.update_of_ne own]
    exact stored storageKey

/-- While a call runs: if the count it has swapped out, if any, meets the
condition, then the counters are bounded and so is the sum it stored. -/
private def CallBounded (policy : Policy) (alg : Counting) (req : RequestContext)
    (progress : Progress) (cells : Cells) : Prop :=
  (∀ count, progress.taken = some count → Faithful policy alg req count) →
    CountersWithin policy.algorithm.limit cells ∧
    ∀ count, progress.taken = some count →
      count + cost req policy.algorithm ≤ policy.algorithm.limit

private theorem callBounded_step {alg : Counting} (positive : 1 ≤ policy.algorithm.limit)
    (range : policy.algorithm.limit < 2 ^ 63) {progress : Progress} {cells : Cells} (time : Time)
    {op : EnvOp} (bounded : CallBounded policy alg req progress cells)
    (guarded : (alg.swap Arith.machine policy req key (fun _ => True)
      (fun value => 0 ≤ value ∧ value ≤ policy.algorithm.limit)).guard progress op) :
    (alg.swap Arith.machine policy req key (fun _ => True)
        (fun value => 0 ≤ value ∧ value ≤ policy.algorithm.limit)).expects progress op
        (Cells.env Arith.machine time op cells).1 ∧
      CallBounded policy alg req (progress.record op (Cells.env Arith.machine time op cells).1)
        (Cells.env Arith.machine time op cells).2 := by
  obtain ⟨untaken, allowed⟩ := guarded
  obtain ⟨stored, -⟩ := bounded (by simp [untaken])
  cases op with
  | now => exact ⟨by cases alg <;> trivial, bounded⟩
  | wallClock => exact ⟨trivial, bounded⟩
  | store op =>
      cases op with
      | get other =>
          have read := stored.live time.nanos other
          refine ⟨by cases alg <;> exact read, fun _ => ⟨stored.update other read, ?_⟩⟩
          intro count taken
          exact absurd (untaken.symm.trans taken) (by simp)
      | compareAndSwap other oldVal newVal ttl =>
          refine ⟨trivial, ?_⟩
          have outcome := Cells.compareAndSwap_eq Arith.machine time.nanos oldVal newVal ttl other cells
          by_cases same : ((cells other).value.live time.nanos).value = oldVal
          · rw [if_pos same] at outcome
            simp only [Cells.env, outcome]
            obtain ⟨now, -, -, believed, -, sum, -, fits⟩ := allowed
            intro faithful
            have meets := faithful oldVal rfl
            have costs := cost_pos req policy.algorithm
            have credible : 0 ≤ oldVal ∧ oldVal ≤ policy.algorithm.limit := by
              cases alg <;> exact believed
            have within := sum_le_limit positive range credible fits meets
            have unwrapped : newVal = oldVal + cost req policy.algorithm := by
              have plain := wrapInt64_of_isInt64
                (n := oldVal + cost req policy.algorithm) ⟨by omega, meets.1⟩
              cases alg <;> exact sum.trans plain
            refine ⟨stored.update other ?_, ?_⟩
            · simp only [ValueItem.arm_value]
              omega
            · rintro count ⟨⟩
              exact within
          · rw [if_neg same] at outcome
            simp only [Cells.env, outcome]
            refine fun _ => ⟨stored.update other (stored.live time.nanos other), ?_⟩
            intro count taken
            exact absurd (untaken.symm.trans taken) (by simp)
      | _ => exact allowed.elim

private theorem countSwapped_iff (policy : Policy) (call : CountingCall) (store : MemoryStore) :
    (countSwapped ((call.alg.evaluate Arith.machine policy call.req call.key).events
        (MemoryStore.env Arith.machine) call.clock store)).isSome = true ↔
      ∃ decision, ((call.alg.evaluate Arith.machine policy call.req call.key).exec
        (MemoryStore.env Arith.machine) call.clock store).1 = .ok decision ∧
        decision.reason = call.alg.within := by
  obtain ⟨alg, key, req, clock⟩ := call
  have accepted := (alg.evaluate_swaps Arith.machine policy req key (fun _ => True)
    (fun _ => True)).result (Program.exec_runs (MemoryStore.env Arith.machine) _ clock store)
    (by cases alg <;> exact Swap.expects_of_trivial (fun _ => trivial) fun _ => trivial)
  cases alg with
  | windowed alg => exact accepted
  | sliding => exact accepted

private theorem turn_bounded (positive : 1 ≤ policy.algorithm.limit)
    (range : policy.algorithm.limit < 2 ^ 63) (call : CountingCall) (store : MemoryStore)
    (stored : CountersWithin policy.algorithm.limit store.cells) :
    let done := turn (MemoryStore.env Arith.machine)
      (fun call : CountingCall => call.alg.evaluate Arith.machine policy call.req call.key)
      CountingCall.clock call store
    (∀ count, countSwapped done.events = some count → Faithful policy call.alg call.req count) →
      CountersBounded policy done := by
  intro done faithful
  have executed := (call.alg.evaluate_swaps Arith.machine policy call.req call.key (fun _ => True)
    (fun value => 0 ≤ value ∧ value ≤ policy.algorithm.limit)).exec
    (fun progress (store : MemoryStore) =>
      CallBounded policy call.alg call.req progress store.cells) (fun _ => True)
    (by
      intro progress store time op bounded _ guarded
      have refined := MemoryStore.env_cells Arith.machine time op store
      have step := callBounded_step positive range time bounded guarded
      rw [refined] at step
      exact step)
    call.clock (fun _ => trivial) (fun _ => ⟨stored, fun count taken => by cases taken⟩)
  obtain ⟨after, sums⟩ := executed.1 faithful
  refine ⟨after, fun decision result within => ?_⟩
  have swapped := (countSwapped_iff policy call store).mpr ⟨decision, result, within⟩
  obtain ⟨count, taken⟩ := Option.isSome_iff_exists.mp swapped
  exact ⟨count, taken, sums count taken⟩

/-- From an empty store, all calls keep the
counters and the sums of admitted calls within the limit if and only if no
count a call replaces wraps around with its cost or is rounded down. -/
theorem counters_bounded_iff (policy : Policy) (shards : Int)
    (positive : 1 ≤ policy.algorithm.limit) (range : policy.algorithm.limit < 2 ^ 63)
    (calls : List CountingCall) :
    (∀ turn ∈ countingTurns policy calls (.newSharded shards), CountersBounded policy turn) ↔
      ∀ turn ∈ countingTurns policy calls (.newSharded shards), ∀ count,
        countSwapped turn.events = some count →
          Faithful policy turn.call.alg turn.call.req count := by
  constructor
  · intro bounded done member count swapped
    obtain ⟨call, before, rfl⟩ := exists_turn_of_mem_serial _ _ _ member
    obtain ⟨decision, result, within⟩ := (countSwapped_iff policy call before).mp
      (Option.isSome_iff_exists.mpr ⟨count, swapped⟩)
    obtain ⟨found, same, sum⟩ := (bounded _ member).admitted decision result within
    obtain rfl : count = found := Option.some.inj (swapped.symm.trans same)
    exact ⟨lt_of_le_of_lt sum range, fun _ exceeds => absurd sum (not_le.mpr exceeds)⟩
  · intro faithful
    obtain ⟨-, -, bounded⟩ := serial_invariant (MemoryStore.env Arith.machine)
      (fun call : CountingCall => call.alg.evaluate Arith.machine policy call.req call.key)
      CountingCall.clock
      (fun turn => ∀ count, countSwapped turn.events = some count →
        Faithful policy turn.call.alg turn.call.req count)
      (fun past store => CountersWithin policy.algorithm.limit store.cells ∧
        ∀ turn ∈ past, CountersBounded policy turn)
      (by
        intro past store call kept meets
        have bounded := turn_bounded positive range call store kept.1 meets
        refine ⟨bounded.stored, fun turn member => ?_⟩
        rcases List.mem_append.mp member with earlier | last
        · exact kept.2 turn earlier
        · rw [List.mem_singleton.mp last]
          exact bounded)
      calls [] (.newSharded shards)
      ⟨fun _ => ⟨le_refl _, by simp [MemoryStore.newSharded_cells]; omega⟩, by simp⟩ faithful
    exact bounded

private def tenUnits : Policy := { algorithm := { limit := 10, window := "1h" } }

private def unitsAtNoon (quantity : Int) : CountingCall :=
  ⟨.windowed .fixedWindow, "k", { quantity }, fun _ => ⟨12 * hour, utc⟩⟩

/-- Of ten units three and four are taken, and five more are refused. -/
theorem counters_bounded_of_small_calls :
    let turns := countingTurns tenUnits ([3, 4, 5].map unitsAtNoon) (.newSharded 4)
    turns.map (fun turn => answeredOverLimit turn.result) = [false, false, true] ∧
      ∀ turn ∈ turns, CountersBounded tenUnits turn := by
  refine ⟨by decide, (counters_bounded_iff tenUnits 4 (by decide) (by decide) _).mpr ?_⟩
  have small : ∀ turn ∈ countingTurns tenUnits ([3, 4, 5].map unitsAtNoon) (.newSharded 4),
      turn.call.alg ≠ .sliding ∧ ∀ count ∈ countSwapped turn.events,
        count + cost turn.call.req tenUnits.algorithm < 2 ^ 63 := by decide
  exact fun turn member count swapped =>
    ⟨(small turn member).2 count swapped, fun sliding => absurd sliding (small turn member).1⟩

/-- Five units of ten are taken; a request for the largest `int64` wraps the sum
around, is admitted and leaves a negative counter. -/
theorem counter_wraps_around :
    (countingTurns tenUnits [unitsAtNoon 5, unitsAtNoon (2 ^ 63 - 1)] (.newSharded 4)).map
        (fun turn => answeredOverLimit turn.result) = [false, false] ∧
      ¬∀ turn ∈ countingTurns tenUnits [unitsAtNoon 5, unitsAtNoon (2 ^ 63 - 1)] (.newSharded 4),
        CountersBounded tenUnits turn := by
  refine ⟨by decide, fun bounded => ?_⟩
  have stored := (bounded _ (List.mem_cons_of_mem _ List.mem_cons_self)).stored "k:43200000000000"
  exact absurd stored.1 (by decide)

end Machine

end Rlaas.Algorithm
