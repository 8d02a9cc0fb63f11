import Rlaas.Algorithm.BucketWatch
import Rlaas.Algorithm.BucketRuns

/-! Token bucket calls running at the same time. Level and refill time lie under
two keys, and the swap guards only the level. -/

set_option autoImplicit false

namespace Rlaas.Algorithm

open Go Model Store Effect

namespace TokenBucket

def watch (policy : Policy) (req : RequestContext) (key : String) (timely : Time → Prop) :
    BucketWatch where
  rule := rule .exact policy req key
  levelKey := levelKey key
  tsKey := tsKey key
  timely
  within := "token_available"

theorem evaluate_watched (policy : Policy) (req : RequestContext) (key : String)
    (timely : Time → Prop) :
    (watch policy req key timely).monitor.Accepts {} (evaluate .exact policy req key) := by
  refine ⟨rfl, fun now expected => ?_⟩
  exact bucketLoop_watched (watch policy req key timely) expected rfl rfl (bucket key).apart
    (by simp [watch, rule]) (by simp [watch, rule])
    (fun _ _ _ _ planned => (plan_admits planned).2.2) _ none

def interleave (policy : Policy) (key : String) (requests : List RequestContext)
    (store : MemoryStore) (schedule : List (Nat × Time)) :
    Pool EnvOp EnvRes Answer MemoryStore Time :=
  (Pool.start (requests.map fun req => evaluate .exact policy req key) store).run
    (MemoryStore.env .exact) schedule

def admittedCost (policy : Policy) (requests : List RequestContext)
    (history : List (Entry EnvOp EnvRes Time)) : ℚ :=
  tally swapSucceeded
    (fun thread : Fin requests.length => (cost (requests.get thread) policy.algorithm : ℚ)) history

def admissions (requests : List RequestContext) (history : List (Entry EnvOp EnvRes Time)) : ℚ :=
  tally swapSucceeded (fun _ : Fin requests.length => (1 : ℚ)) history

def progress (key : String) (history : List (Entry EnvOp EnvRes Time)) (thread : Nat) :
    BucketProgress :=
  (own history thread).foldl
    (fun seen event => seen.record (tsKey key) event.op event.result) {}

/-- The clock reading of the call admitted last, zero when there is none. -/
def lastAdmission (key : String) (history : List (Entry EnvOp EnvRes Time)) : Int :=
  match history.reverse.dropWhile
      fun entry => !swapSucceeded entry.event.op entry.event.result with
  | [] => 0
  | entry :: earlier =>
      match (progress key earlier.reverse entry.thread).now with
      | some now => now.nanos
      | none => 0

/-- A swap of the level that is about to succeed was planned with the refill
time of the latest admission, which is not after the call's own clock reading. -/
def RefillCurrent (key : String) (cells : Cells) (history : List (Entry EnvOp EnvRes Time))
    (thread : Nat) (time : Time) (op : EnvOp) : Prop :=
  ∀ oldVal newVal ttl, op = .store (.compareAndSwap (levelKey key) oldVal newVal ttl) →
    ((cells (levelKey key)).value.live time.nanos).value = oldVal →
      (progress key history thread).stamp = some (lastAdmission key history) ∧
        ∀ now, (progress key history thread).now = some now → lastAdmission key history ≤ now.nanos

instance (key : String) (cells : Cells) (history : List (Entry EnvOp EnvRes Time)) (thread : Nat)
    (time : Time) (op : EnvOp) : Decidable (RefillCurrent key cells history thread time op) := by
  cases op with
  | store op =>
      cases op with
      | compareAndSwap other oldVal newVal ttl =>
          refine decidable_of_iff (other = levelKey key →
              ((cells (levelKey key)).value.live time.nanos).value = oldVal →
              (progress key history thread).stamp = some (lastAdmission key history) ∧
                ∀ now ∈ (progress key history thread).now, lastAdmission key history ≤ now.nanos)
            ⟨fun holds _ _ _ same found => ?_, fun holds same => holds oldVal newVal ttl (by rw [same])⟩
          cases same
          exact holds rfl found
      | _ => exact isTrue nofun
  | _ => exact isTrue nofun

theorem lastAdmission_snoc_unswapped {key : String} {history : List (Entry EnvOp EnvRes Time)}
    {entry : Entry EnvOp EnvRes Time}
    (silent : swapSucceeded entry.event.op entry.event.result = false) :
    lastAdmission key (history ++ [entry]) = lastAdmission key history := by
  simp [lastAdmission, silent]

theorem lastAdmission_snoc_swapped {key : String} {history : List (Entry EnvOp EnvRes Time)}
    {entry : Entry EnvOp EnvRes Time} {now : Time}
    (effect : swapSucceeded entry.event.op entry.event.result = true)
    (reading : (progress key history entry.thread).now = some now) :
    lastAdmission key (history ++ [entry]) = now.nanos := by
  simp [lastAdmission, effect, reading]

/-- What was admitted and what is left never exceed the capacity and what has
been refilled by the latest admission. -/
private structure BucketKept (policy : Policy) (key : String) (requests : List RequestContext)
    (rate : ℚ) (opening closing : Int) (cells : Cells) (history : List (Entry EnvOp EnvRes Time)) :
    Prop where
  level : 0 ≤ (cells (levelKey key)).value.value
  idle : lastAdmission key history = 0 →
    admittedCost policy requests history = 0 ∧ admissions requests history = 0
  busy : lastAdmission key history ≠ 0 → opening ≤ lastAdmission key history ∧
    lastAdmission key history ≤ closing ∧
    admittedCost policy requests history + (cells (levelKey key)).value.value / 1000 ≤
      capacity policy.algorithm +
        rate * (((lastAdmission key history - opening : Int) : ℚ) / 1000000000) +
        admissions requests history / 2000

section Interleaving

variable {policy : Policy} {key : String} {requests : List RequestContext} {rate : ℚ}
  {opening closing : Int} {cells after : Cells} {history : List (Entry EnvOp EnvRes Time)} {time : Time}
  {event : Event EnvOp EnvRes}

private theorem BucketKept.unswapped
    (kept : BucketKept policy key requests rate opening closing cells history)
    (read : (after (levelKey key)).value.value = (cells (levelKey key)).value.value ∨
      (after (levelKey key)).value.value = 0)
    {thread : Nat} (silent : swapSucceeded event.op event.result = false) :
    BucketKept policy key requests rate opening closing after (history ++ [⟨thread, time, event⟩]) := by
  have costs : admittedCost policy requests (history ++ [⟨thread, time, event⟩]) =
      admittedCost policy requests history := tally_snoc_uncounted silent
  have number : admissions requests (history ++ [⟨thread, time, event⟩]) =
      admissions requests history := tally_snoc_uncounted silent
  have level := kept.level
  have lower : 0 ≤ (after (levelKey key)).value.value ∧
      (after (levelKey key)).value.value ≤ (cells (levelKey key)).value.value := by
    rcases read with same | zero
    · exact ⟨same ▸ level, le_of_eq same⟩
    · exact ⟨zero ▸ le_refl _, zero ▸ level⟩
  have latest : lastAdmission key (history ++ [⟨thread, time, event⟩]) =
      lastAdmission key history := lastAdmission_snoc_unswapped silent
  refine ⟨lower.1, ?_, ?_⟩
  · rw [latest, costs, number]
    exact kept.idle
  · rw [latest, costs, number]
    intro admitted
    obtain ⟨begun, reached, spent⟩ := kept.busy admitted
    have drop : ((after (levelKey key)).value.value : ℚ) ≤ (cells (levelKey key)).value.value := by
      exact_mod_cast lower.2
    exact ⟨begun, reached, by linarith⟩

private theorem BucketKept.swapped
    (kept : BucketKept policy key requests rate opening closing cells history)
    (refill : refillRate .exact policy.algorithm = .fin rate)
    (thread : Fin requests.length) {now : Time} {oldVal newVal : Int} {decision : Decision}
    (first : counted swapSucceeded history thread = false)
    (effect : swapSucceeded event.op event.result = true)
    (reading : (progress key history thread).now = some now) (positive : 0 < now.nanos)
    (begun : opening ≤ now.nanos) (reached : now.nanos ≤ closing)
    (current : lastAdmission key history ≤ now.nanos)
    (read : oldVal = (cells (levelKey key)).value.value ∨ oldVal = 0)
    (written : (after (levelKey key)).value.value = newVal)
    (planned : plan .exact policy requests[thread] now.nanos oldVal
      (lastAdmission key history) = .take newVal decision) :
    BucketKept policy key requests rate opening closing after (history ++ [⟨thread, time, event⟩]) := by
  have costs : admittedCost policy requests (history ++ [⟨thread, time, event⟩]) =
      admittedCost policy requests history + cost requests[thread] policy.algorithm :=
    tally_snoc_counted thread first effect
  have number : admissions requests (history ++ [⟨thread, time, event⟩]) =
      admissions requests history + 1 := tally_snoc_counted thread first effect
  have latest : lastAdmission key (history ++ [⟨thread, time, event⟩]) = now.nanos :=
    lastAdmission_snoc_swapped effect reading
  have refills := refillRate_pos refill
  obtain ⟨nonneg, bounded⟩ := plan_take refill planned
  have lower : (oldVal : ℚ) ≤ (cells (levelKey key)).value.value := by
    have level : (0 : ℚ) ≤ (cells (levelKey key)).value.value := by exact_mod_cast kept.level
    rcases read with same | zero
    · rw [same]
    · rw [zero]
      exact_mod_cast level
  refine ⟨written ▸ nonneg, fun never => ?_, fun _ => ?_⟩
  · rw [latest] at never
    omega
  · rw [latest, costs, number, written]
    refine ⟨begun, reached, ?_⟩
    by_cases unset : lastAdmission key history = 0
    · obtain ⟨none, zero⟩ := kept.idle unset
      have full := tokens_le_capacity policy.algorithm rate now.nanos oldVal
        (lastAdmission key history)
      have elapsed : (0 : ℚ) ≤ ((now.nanos - opening : Int) : ℚ) := by
        exact_mod_cast sub_nonneg.mpr begun
      have gained : 0 ≤ rate * (((now.nanos - opening : Int) : ℚ) / 1000000000) := by positivity
      rw [none, zero]
      linarith
    · obtain ⟨_, _, spent⟩ := kept.busy unset
      have refilled := tokens_le_refilled unset policy.algorithm rate now.nanos oldVal
      rw [elapsed_of_le current] at refilled
      have sum : rate * (((now.nanos - opening : Int) : ℚ) / 1000000000) =
          rate * (((lastAdmission key history - opening : Int) : ℚ) / 1000000000) +
            ((now.nanos - lastAdmission key history : Int) : ℚ) / 1000000000 * rate := by
        push_cast
        ring
      linarith

def Between (opening closing : Int) (t : Time) : Prop := opening ≤ t.nanos ∧ t.nanos ≤ closing

private def bucketMonitor (policy : Policy) (key : String) (requests : List RequestContext)
    (opening closing : Int) (thread : Nat) : Monitor EnvOp EnvRes BucketProgress Answer :=
  (watch policy (requests.getD thread {}) key (Between opening closing)).monitor

private theorem bucketKept_step {thread : Nat} {op : EnvOp}
    (refill : refillRate .exact policy.algorithm = .fin rate) (positive : 0 < opening)
    (inRange : thread < requests.length)
    (kept : BucketKept policy key requests rate opening closing cells history)
    (between : Between opening closing time)
    (current : RefillCurrent key cells history thread time op)
    (guarded : (bucketMonitor policy key requests opening closing thread).guard
      ((bucketMonitor policy key requests opening closing thread).follow {} (own history thread)) op) :
    (bucketMonitor policy key requests opening closing thread).expects
        ((bucketMonitor policy key requests opening closing thread).follow {}
          (own history thread)) op (Cells.env .exact time op cells).1 ∧
      BucketKept policy key requests rate opening closing (Cells.env .exact time op cells).2
        (history ++ [⟨thread, time, ⟨op, (Cells.env .exact time op cells).1⟩⟩]) := by
  change BucketWatch.guard _ (progress key history thread) op at guarded
  cases op with
  | now => exact ⟨between, kept.unswapped (.inl rfl) rfl⟩
  | wallClock => exact ⟨trivial, kept.unswapped (.inl rfl) rfl⟩
  | store op =>
      refine ⟨trivial, ?_⟩
      cases op with
      | get other => exact kept.unswapped (Cells.get_value_cases _ _ _ _) rfl
      | set other value ttl =>
          refine kept.unswapped (.inl ?_) rfl
          have apart : levelKey key ≠ (CounterOp.set other value ttl).key := by
            rw [show (CounterOp.set other value ttl).key = tsKey key from guarded.2]
            exact (bucket key).apart
          rw [Cells.env, Cells.handle_other apart]
      | compareAndSwap other oldVal newVal ttl =>
          obtain ⟨untaken, keyed, now, last, decision, reading, timely, stamped, planned⟩ := guarded
          obtain rfl : other = levelKey key := keyed
          have first : counted swapSucceeded history thread = false := by
            have taken := (watch policy (requests.getD thread {}) key
              (Between opening closing)).follow_taken (own history thread) {}
            exact taken.symm.trans untaken
          have request : requests.getD thread {} = requests[thread] := by simp [inRange]
          simp only [Cells.env, Cells.compareAndSwap_eq]
          by_cases same : ((cells (levelKey key)).value.live time.nanos).value = oldVal
          · obtain ⟨stamp, ordered⟩ := current oldVal newVal ttl rfl same
            obtain rfl : lastAdmission key history = last :=
              Option.some.inj (stamp.symm.trans stamped)
            simp only [if_pos same]
            exact kept.swapped refill ⟨thread, inRange⟩ first rfl reading
              (lt_of_lt_of_le positive timely.1) timely.1 timely.2 (ordered now reading)
              (same ▸ (cells (levelKey key)).value.live_value_cases time.nanos) (by simp)
              (request ▸ planned)
          · simp only [if_neg same]
            refine kept.unswapped ?_ rfl
            simpa using (cells (levelKey key)).value.live_value_cases time.nanos
      | _ => exact absurd guarded id

private theorem bucketMonitor_accepts (policy : Policy) (key : String)
    (requests : List RequestContext) (opening closing : Int) (thread : Nat)
    (program : Evaluation Answer)
    (found : (requests.map fun req => evaluate .exact policy req key)[thread]? = some program) :
    (bucketMonitor policy key requests opening closing thread).Accepts {} program := by
  rw [List.getElem?_map, Option.map_eq_some_iff] at found
  obtain ⟨req, listed, rfl⟩ := found
  rw [bucketMonitor, List.getD_eq_getElem?_getD, listed]
  exact evaluate_watched policy req key _

private theorem BucketKept.bounded
    (kept : BucketKept policy key requests rate opening closing cells history)
    (refill : refillRate .exact policy.algorithm = .fin rate) (ordered : opening ≤ closing) :
    admittedCost policy requests history ≤ capacity policy.algorithm +
      rate * (((closing - opening : Int) : ℚ) / 1000000000) + admissions requests history / 2000 := by
  have refills := refillRate_pos refill
  by_cases unset : lastAdmission key history = 0
  · obtain ⟨none, zero⟩ := kept.idle unset
    have full : (0 : ℚ) < capacity policy.algorithm := by exact_mod_cast capacity_pos _
    have lasting : (0 : ℚ) ≤ ((closing - opening : Int) : ℚ) := by
      exact_mod_cast sub_nonneg.mpr ordered
    rw [none, zero]
    positivity
  · obtain ⟨_, reached, spent⟩ := kept.busy unset
    have level : (0 : ℚ) ≤ (cells (levelKey key)).value.value := by exact_mod_cast kept.level
    have later : ((lastAdmission key history - opening : Int) : ℚ) ≤
        ((closing - opening : Int) : ℚ) := by
      exact_mod_cast sub_le_sub_right reached opening
    have gained : rate * (((lastAdmission key history - opening : Int) : ℚ) / 1000000000) ≤
        rate * (((closing - opening : Int) : ℚ) / 1000000000) := by
      gcongr
    linarith

/-- While every swap that succeeds was planned with a current refill time, calls
running together admit no more than the capacity and the refill of the time
that has passed, up to the rounding of the stored levels. -/
theorem interleaved_bucket_calls (policy : Policy) (key : String) (requests : List RequestContext)
    (store : MemoryStore) (rate : ℚ) (opening closing : Int) (schedule : List (Nat × Time))
    (refill : refillRate .exact policy.algorithm = .fin rate)
    (positive : 0 < opening) (ordered : opening ≤ closing)
    (absent : (store.cells (levelKey key)).value = {})
    (between : ∀ choice ∈ schedule, Between opening closing choice.2)
    (current : (Pool.start (requests.map fun req => evaluate .exact policy req key)
      store).Along (MemoryStore.env .exact)
        (fun store => RefillCurrent key store.cells) schedule) :
    admittedCost policy requests (interleave policy key requests store schedule).history ≤
        capacity policy.algorithm + rate * (((closing - opening : Int) : ℚ) / 1000000000) +
          admissions requests (interleave policy key requests store schedule).history / 2000 ∧
      ∀ thread decision,
        (interleave policy key requests store schedule).threads[thread]? =
            some (.done (.ok decision)) → decision.reason = "token_available" →
          counted swapSucceeded (interleave policy key requests store schedule).history thread =
            true := by
  obtain ⟨followed, kept⟩ := Pool.run_invariant (Cells.env .exact)
    (bucketMonitor policy key requests opening closing) (fun _ => {})
    (BucketKept policy key requests rate opening closing)
    (fun _ _ _ _ _ inRange kept holds guarded =>
      bucketKept_step refill positive inRange kept holds.1 holds.2 guarded)
    schedule
    (Pool.start (requests.map fun req => evaluate .exact policy req key) store.cells)
    (by simp [Pool.start])
    (Pool.followed_start (bucketMonitor_accepts policy key requests opening closing))
    ⟨by simp [Pool.start, absent], fun _ => ⟨tally_nil, tally_nil⟩, fun some => absurd rfl some⟩
    ((Pool.along_of_readings schedule _ between).and (current.view (MemoryStore.env_cells _)))
  rw [MemoryStore.run_cells] at followed kept
  refine ⟨kept.bounded refill ordered, fun thread decision found reasoned => ?_⟩
  have taken := (watch policy (requests.getD thread {}) key (Between opening closing)).follow_taken
    (own (interleave policy key requests store schedule).history thread) {}
  have accepted : (BucketWatch.monitor _).accept _ _ := followed thread _ found
  exact taken.symm.trans (accepted.mpr ⟨decision, rfl, reasoned⟩)

private def burstPolicy : Policy := { algorithm := { burst := 1, refillRate := .fin 1 } }

private def oneSecond : Time := ⟨second, utc⟩

private theorem burst_refill : refillRate .exact burstPolicy.algorithm = .fin 1 := by
  decide +kernel

private def pairPolicy : Policy := { algorithm := { burst := 2, refillRate := .fin 1 } }

private def retrying : List (Nat × Time) :=
  ([0, 1, 0, 0, 1, 1, 0, 1, 0, 1, 1, 1, 1] : List Nat).map fun thread => (thread, oneSecond)

/-- Both calls read an absent bucket of two tokens. The swap of the first leaves one of them, that
of the second fails, and its retry takes the other. -/
theorem interleaved_bucket_calls_of_retry :
    let final := interleave pairPolicy "k" [{}, {}] (.newSharded 1) retrying
    admittedCost pairPolicy [{}, {}] final.history = 2 ∧
      admittedCost pairPolicy [{}, {}] final.history ≤
        capacity pairPolicy.algorithm + 1 * (((second - second : Int) : ℚ) / 1000000000) +
          admissions [{}, {}] final.history / 2000 ∧
      counted swapSucceeded final.history 1 = true := by
  intro final
  have instant : ∀ choice ∈ retrying, Between second second choice.2 := by
    intro choice member
    obtain ⟨thread, _, rfl⟩ := List.mem_map.mp member
    exact ⟨le_rfl, le_rfl⟩
  obtain ⟨bounded, swapped⟩ := interleaved_bucket_calls pairPolicy "k" [{}, {}] (.newSharded 1) 1
    second second retrying (by decide +kernel) (by decide) le_rfl rfl instant (by decide +kernel)
  have retried : final.results[1]? = some (some (.ok
      { allowed := true, action := .allow, reason := "token_available", remaining := 0 })) := by
    decide +kernel
  exact ⟨by decide +kernel, bounded, swapped 1 _ (Pool.results_eq_some.mp retried) rfl⟩

private def together : Pool EnvOp EnvRes Answer MemoryStore Time :=
  interleave burstPolicy "k" [{}, {}] (.newSharded 1)
    (([0, 0, 0, 1, 1, 1, 0, 1, 0, 1] : List Nat).map fun thread => (thread, oneSecond))

/-- Both calls read an absent bucket before either swaps, and a full bucket less
its only token is stored as an absent one is read: both swaps succeed. -/
theorem tokenBucket_admits_twice :
    refillRate .exact burstPolicy.algorithm = .fin 1 ∧
      admittedCost burstPolicy [{}, {}] together.history = 2 ∧
      ¬admittedCost burstPolicy [{}, {}] together.history ≤
        capacity burstPolicy.algorithm + 1 * (((second - second : Int) : ℚ) / 1000000000) +
          admissions [{}, {}] together.history / 2000 :=
  ⟨burst_refill, by decide +kernel, by decide +kernel⟩

end Interleaving

end TokenBucket

end Rlaas.Algorithm
