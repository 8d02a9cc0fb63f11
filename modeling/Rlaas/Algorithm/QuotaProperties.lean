import Rlaas.Algorithm.Tiling
import Rlaas.Algorithm.WindowProperties
import Rlaas.Algorithm.Alone
import Rlaas.Go.Strings

/-! Quota buckets over a run. A bucket's usage lives as long as the duration of
the period, counted from the last admission; the bucket itself is a calendar
period, and the month can be longer. -/

set_option autoImplicit false

namespace Rlaas.Algorithm

open Go Model Store Effect Function

namespace Quota

section Buckets

variable (policy : Policy) (key : String)

def admittedWithin (start finish : Int)
    (done : List (Turn EnvOp EnvRes TimedCall Answer MemoryStore)) : Int :=
  (done.map fun turn =>
    if answered "within_quota" turn.result ∧ start ≤ (turn.call.clock 0).nanos ∧
        (turn.call.clock 0).nanos < finish then cost turn.call.req policy.algorithm else 0).sum

/-- At each reading, the call is no more than one period after the start of its
bucket, or the bucket's usage has not expired. -/
def Unexpired (turn : Turn EnvOp EnvRes TimedCall Answer MemoryStore) : Prop :=
  ∀ n ≤ 2,
    (turn.call.clock n).nanos ≤
        (windowStart (turn.call.clock 0) (period policy.algorithm)).nanos +
          windowDuration (period policy.algorithm) ∨
      (turn.before.cells (bucketKey .exact key (turn.call.clock 0)
        policy.algorithm)).value.expired (turn.call.clock n).nanos = false

private def admittedAt (start : Int)
    (done : List (Turn EnvOp EnvRes TimedCall Answer MemoryStore)) : Int :=
  (done.map fun turn =>
    if answered "within_quota" turn.result ∧
        (windowStart (turn.call.clock 0) (period policy.algorithm)).nanos = start then
      cost turn.call.req policy.algorithm else 0).sum

private def bucketAt (start : Int) : String := key ++ ":quota:" ++ toString start

private theorem bucketKey_eq (now : Time) (cfg : AlgorithmConfig) :
    bucketKey .exact key now cfg = bucketAt key (windowStart now (period cfg)).nanos := rfl

/-- Each bucket's counter is the cost admitted in it and lasts for a period from
the bucket's start on. -/
private structure BucketsKept (done : List (Turn EnvOp EnvRes TimedCall Answer MemoryStore))
    (cells : Cells) : Prop where
  total : ∀ start, (cells (bucketAt key start)).value.value = admittedAt policy start done
  bounded : ∀ start, admittedAt policy start done ≤ effectiveLimit policy.algorithm
  lasting : ∀ start, (cells (bucketAt key start)).value.expiry = zeroNanos ∨
    start + windowDuration (period policy.algorithm) ≤ (cells (bucketAt key start)).value.expiry

end Buckets

section Run

variable {policy : Policy} {key : String}

private theorem admittedAt_snoc (start : Int)
    (done : List (Turn EnvOp EnvRes TimedCall Answer MemoryStore))
    (last : Turn EnvOp EnvRes TimedCall Answer MemoryStore) :
    admittedAt policy start (done ++ [last]) = admittedAt policy start done +
      if answered "within_quota" last.result ∧
          (windowStart (last.call.clock 0) (period policy.algorithm)).nanos = start then
        cost last.call.req policy.algorithm else 0 := by
  simp [admittedAt]

private theorem admittedWithin_le (positive : 0 < windowDuration (period policy.algorithm))
    (moment : Int) (done : List (Turn EnvOp EnvRes TimedCall Answer MemoryStore))
    (inUTC : ∀ turn ∈ done, (turn.call.clock 0).loc = utc) :
    admittedWithin policy (windowStart ⟨moment, utc⟩ (period policy.algorithm)).nanos
        (windowEnd ⟨moment, utc⟩ (period policy.algorithm)).nanos done ≤
      admittedAt policy (windowStart ⟨moment, utc⟩ (period policy.algorithm)).nanos done := by
  refine List.sum_le_sum fun turn member => ?_
  have located : turn.call.clock 0 = ⟨(turn.call.clock 0).nanos, utc⟩ := by
    rw [← inUTC turn member]
  have costs := cost_pos turn.call.req policy.algorithm
  by_cases inside : answered "within_quota" turn.result ∧
      (windowStart ⟨moment, utc⟩ (period policy.algorithm)).nanos ≤ (turn.call.clock 0).nanos ∧
      (turn.call.clock 0).nanos < (windowEnd ⟨moment, utc⟩ (period policy.algorithm)).nanos
  · have same := windowStart_of_mem positive inside.2.1 inside.2.2
    rw [← located] at same
    rw [if_pos inside, if_pos ⟨inside.1, same⟩]
  · rw [if_neg inside]
    split <;> omega

private theorem fresh_of_unexpired {done : List (Turn EnvOp EnvRes TimedCall Answer MemoryStore)}
    {turn : Turn EnvOp EnvRes TimedCall Answer MemoryStore}
    (kept : BucketsKept policy key done turn.before.cells) (unexpired : Unexpired policy key turn)
    {n : Nat} (early : n ≤ 2) :
    (turn.before.cells (bucketKey .exact key (turn.call.clock 0)
      policy.algorithm)).value.expired (turn.call.clock n).nanos = false := by
  rcases unexpired n early with recent | fresh
  · have lasting := kept.lasting
      (windowStart (turn.call.clock 0) (period policy.algorithm)).nanos
    rw [bucketKey_eq]
    simp only [ValueItem.expired, Bool.and_eq_false_iff, decide_eq_false_iff_not]
    rcases lasting with never | later
    · exact .inl (not_not.mpr never)
    · exact .inr (by omega)
  · exact fresh

/-- A call of the run that finds its bucket's usage: it is refused and changes
nothing, or it is admitted and adds its cost. -/
private theorem exec_of_fresh (call : TimedCall) (store : MemoryStore)
    (fresh : ∀ n ≤ 2, (store.cells (bucketKey .exact key (call.clock 0)
      policy.algorithm)).value.expired (call.clock n).nanos = false) :
    let count := (store.cells (bucketKey .exact key (call.clock 0) policy.algorithm)).value.value
    let executed := (evaluate .exact policy call.req key).exec (MemoryStore.env .exact)
      call.clock store
    (effectiveLimit policy.algorithm < count + cost call.req policy.algorithm ∧
        answered "within_quota" executed.1 = false ∧ executed.2.cells = store.cells) ∨
      (count + cost call.req policy.algorithm ≤ effectiveLimit policy.algorithm ∧
        answered "within_quota" executed.1 = true ∧
        executed.2.cells = update store.cells
          (bucketKey .exact key (call.clock 0) policy.algorithm)
          { store.cells (bucketKey .exact key (call.clock 0) policy.algorithm) with
            value := ValueItem.arm (call.clock 2).nanos
              (windowDuration (period policy.algorithm))
              { (store.cells (bucketKey .exact key (call.clock 0) policy.algorithm)).value with
                value := count + cost call.req policy.algorithm } }) := by
  intro count executed
  obtain ⟨retries, tries⟩ := maxRetries_pos policy.algorithm
  have looped := counterLoop_exec_of_fresh Arith.exact
    (rule .exact policy call.req key (call.clock 0)) retries (fun n => call.clock (n + 1))
    store.cells (fresh 1 (by omega)) (fresh 2 (by omega))
  have refined : (evaluate .exact policy call.req key).exec (Cells.env .exact) call.clock
      store.cells = (executed.1, executed.2.cells) := MemoryStore.exec_cells ..
  rw [evaluate, readNow, Program.exec_call, tries] at refined
  by_cases exceeds : effectiveLimit policy.algorithm < count + cost call.req policy.algorithm
  · have above : (rule .exact policy call.req key (call.clock 0)).overLimit count = true :=
      decide_eq_true exceeds
    obtain ⟨answer, after⟩ := Prod.mk.inj ((looped.trans (if_pos above)).symm.trans refined)
    refine .inl ⟨exceeds, ?_, after.symm⟩
    rw [← answer, answered, overLimitDecision_reason]
    rfl
  · have fits : ¬(rule .exact policy call.req key (call.clock 0)).overLimit count = true :=
      fun above => exceeds (of_decide_eq_true above)
    obtain ⟨answer, after⟩ := Prod.mk.inj ((looped.trans (if_neg fits)).symm.trans refined)
    refine .inr ⟨not_lt.mp exceeds, ?_, after.symm⟩
    rw [← answer]
    rfl

private theorem bucketsKept_step (positive : 0 < windowDuration (period policy.algorithm))
    {done : List (Turn EnvOp EnvRes TimedCall Answer MemoryStore)} {store : MemoryStore}
    (kept : BucketsKept policy key done store.cells) {call : TimedCall}
    (inUTC : (call.clock 0).loc = utc) (ordered : ∀ n, (call.clock 0).nanos ≤ (call.clock n).nanos) :
    let last := turn (MemoryStore.env .exact)
      (fun call : TimedCall => evaluate .exact policy call.req key) TimedCall.clock call store
    Unexpired policy key last → BucketsKept policy key (done ++ [last]) last.after.cells := by
  intro last unexpired
  have located : call.clock 0 = ⟨(call.clock 0).nanos, utc⟩ := by rw [← inUTC]
  have begun := windowStart_le positive (call.clock 0).nanos
  rw [← located] at begun
  have effect := exec_of_fresh call store
    fun n early => fresh_of_unexpired kept unexpired early
  simp only [bucketKey_eq] at effect
  rcases effect with ⟨-, refused, unchanged⟩ | ⟨fits, admitted, changed⟩
  · have same : ∀ start, admittedAt policy start (done ++ [last]) = admittedAt policy start done := by
      intro start
      rw [admittedAt_snoc]
      simp [last, turn, refused]
    have cells : last.after.cells = store.cells := unchanged
    rw [cells]
    exact ⟨fun start => (kept.total start).trans (same start).symm,
      fun start => (same start).trans_le (kept.bounded start), kept.lasting⟩
  · have cells : last.after.cells = _ := changed
    rw [cells]
    have own : admittedAt policy (windowStart (call.clock 0) (period policy.algorithm)).nanos
        (done ++ [last]) = admittedAt policy
          (windowStart (call.clock 0) (period policy.algorithm)).nanos done +
            cost call.req policy.algorithm := by
      rw [admittedAt_snoc]
      simp [last, turn, admitted]
    have other : ∀ start, start ≠ (windowStart (call.clock 0) (period policy.algorithm)).nanos →
        admittedAt policy start (done ++ [last]) = admittedAt policy start done := by
      intro start different
      rw [admittedAt_snoc]
      simp [last, turn, different.symm]
    have apart : ∀ start, start ≠ (windowStart (call.clock 0) (period policy.algorithm)).nanos →
        bucketAt key start ≠
          bucketAt key (windowStart (call.clock 0) (period policy.algorithm)).nanos :=
      fun start different same => different (Strings.append_toString_injective same)
    refine ⟨fun start => ?_, fun start => ?_, fun start => ?_⟩
    · by_cases here : start = (windowStart (call.clock 0) (period policy.algorithm)).nanos
      · rw [here, update_self, own, ValueItem.arm_value, kept.total]
      · rw [update_of_ne (apart start here), other start here, kept.total]
    · by_cases here : start = (windowStart (call.clock 0) (period policy.algorithm)).nanos
      · rw [here, own, ← kept.total]
        exact fits
      · rw [other start here]
        exact kept.bounded start
    · by_cases here : start = (windowStart (call.clock 0) (period policy.algorithm)).nanos
      · rw [here, update_self]
        have later := ordered 2
        refine .inr ?_
        simp only [ValueItem.arm, if_pos positive]
        omega
      · rw [update_of_ne (apart start here)]
        exact kept.lasting start

/-- In UTC, the cost admitted in a calendar bucket stays within the
limit as long as calls find the usage of their bucket unexpired. -/
theorem admittedWithin_le_limit (policy : Policy) (key : String) (shards : Int)
    (positive : 0 < windowDuration (period policy.algorithm)) (calls : List TimedCall)
    (inUTC : ∀ call ∈ calls, (call.clock 0).loc = utc)
    (ordered : ∀ call ∈ calls, ∀ n, (call.clock 0).nanos ≤ (call.clock n).nanos)
    (unexpired : ∀ turn ∈ turns .exact .quota policy key calls (.newSharded shards),
      Unexpired policy key turn) (moment : Int) :
    admittedWithin policy (windowStart ⟨moment, utc⟩ (period policy.algorithm)).nanos
        (windowEnd ⟨moment, utc⟩ (period policy.algorithm)).nanos
        (turns .exact .quota policy key calls (.newSharded shards)) ≤
      effectiveLimit policy.algorithm := by
  have made : ∀ turn ∈ turns .exact .quota policy key calls (.newSharded shards),
      turn.call ∈ calls := fun _ member => call_mem_of_mem_serial _ _ _ member
  obtain ⟨final, kept⟩ := serial_invariant (MemoryStore.env .exact)
    (fun call : TimedCall => evaluate .exact policy call.req key) TimedCall.clock
    (fun turn => Unexpired policy key turn ∧ turn.call ∈ calls)
    (fun past store => BucketsKept policy key past store.cells)
    (fun past store call kept allowed => bucketsKept_step positive kept (inUTC call allowed.2)
      (ordered call allowed.2) allowed.1)
    calls [] (.newSharded shards)
    ⟨fun _ => rfl, fun _ => le_of_lt (effectiveLimit_pos _), fun _ => .inl rfl⟩
    (fun turn member => ⟨unexpired turn member, made turn member⟩)
  have summed := admittedWithin_le positive moment
    (turns .exact .quota policy key calls (.newSharded shards))
    fun turn member => inUTC turn.call (made turn member)
  exact summed.trans (kept.bounded _)

private def monthlyUnit : Policy := { algorithm := { limit := 1, quotaPeriod := "month" } }

private def callOnDay (day : Int) : TimedCall := ⟨{}, fun _ => ⟨day * dayNanos, utc⟩⟩

theorem admittedWithin_le_limit_of_january :
    admittedWithin monthlyUnit (windowStart ⟨0, utc⟩ (period monthlyUnit.algorithm)).nanos
      (windowEnd ⟨0, utc⟩ (period monthlyUnit.algorithm)).nanos
      (turns .exact .quota monthlyUnit "k" [callOnDay 0, callOnDay 30] (.newSharded 4)) ≤ 1 :=
  admittedWithin_le_limit monthlyUnit "k" 4 (by decide) [callOnDay 0, callOnDay 30]
    (by simp [callOnDay]) (by simp [callOnDay])
    (by
      intro turn member n early
      left
      rcases List.mem_pair.mp (call_mem_of_mem_serial _ _ _ member) with first | second
      · simp only [first, callOnDay]
        decide
      · simp only [second, callOnDay]
        decide)
    0

/-- On 1 January the unit of the month is used up. It expires after 30 days, and
a second one is admitted at noon of the 31st. -/
theorem month_admits_twice :
    effectiveLimit monthlyUnit.algorithm <
      admittedWithin monthlyUnit (windowStart ⟨0, utc⟩ (period monthlyUnit.algorithm)).nanos
        (windowEnd ⟨0, utc⟩ (period monthlyUnit.algorithm)).nanos
        (turns .exact .quota monthlyUnit "k"
          [callOnDay 0, ⟨{}, fun _ => ⟨30 * dayNanos + 12 * hour, utc⟩⟩] (.newSharded 4)) := by
  decide +kernel

end Run

end Quota

end Rlaas.Algorithm
