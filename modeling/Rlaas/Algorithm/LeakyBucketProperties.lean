import Rlaas.Algorithm.BucketWatch
import Rlaas.Algorithm.BucketRuns

/-! Leaky bucket calls running at the same time, at one instant. Nothing leaks, so
the level only grows, and it grows with every swap. -/

set_option autoImplicit false

namespace Rlaas.Algorithm

open Go Model Store Effect

/-- Follows the timestamps a call writes: all of them are its clock reading. -/
def stampMonitor (tsKey : String) (now : Time) : Monitor EnvOp EnvRes Unit Answer where
  expects _ op answer :=
    match op, answer with
    | .now, reading => reading = now
    | _, _ => True
  guard _ op :=
    match op with
    | .store (.set key value _) => key = tsKey ∧ value = now.nanos
    | _ => True
  advance _ _ _ := ()
  accept _ _ := True

theorem bucketLoop_stamps (rule : BucketRule) {tsKey : String} {now : Time}
    (tsKeyed : rule.tsKey = tsKey) (timed : rule.nowNanos = now.nanos) (attempts : Nat) :
    (stampMonitor tsKey now).Accepts () (bucketLoop rule attempts) := by
  refine bucketLoop_accepts (fun _ => True) ?_ ?_ ?_ ?_ trivial
  · exact fun _ _ _ _ => ⟨trivial, fun _ => trivial⟩
  · exact fun _ _ _ => trivial
  · exact fun _ _ _ _ _ _ => ⟨trivial, fun _ _ => trivial⟩
  · intro _ _ _ _ _ _ _
    exact ⟨trivial, fun _ => rfl, rfl,
      setTimestamp_accepts ⟨tsKeyed, timed⟩ (fun _ => rfl) trivial⟩

namespace LeakyBucket

def watch (policy : Policy) (req : RequestContext) (key : String) (now : Time) : BucketWatch where
  rule := rule .exact policy req key
  levelKey := levelKey key
  tsKey := tsKey key
  timely := (· = now)
  within := "within_leaky_bucket"

theorem evaluate_watched (policy : Policy) (req : RequestContext) (key : String) (now : Time) :
    (watch policy req key now).monitor.Accepts {} (evaluate .exact policy req key) := by
  refine ⟨rfl, fun reading expected => ?_⟩
  exact bucketLoop_watched (watch policy req key now) expected rfl rfl (bucket policy.algorithm key).apart
    (by simp [watch, rule]) (by simp [watch, rule])
    (fun _ _ _ _ planned => (plan_admits planned).2.2) _ none

theorem evaluate_stamps (policy : Policy) (req : RequestContext) (key : String) (now : Time) :
    (stampMonitor (tsKey key) now).Accepts () (evaluate .exact policy req key) := by
  refine ⟨trivial, fun reading expected => ?_⟩
  obtain rfl : reading = now := expected
  exact bucketLoop_stamps (rule .exact policy req key reading) rfl rfl _

/-- Calls whose steps are interleaved, all at one reading of the clock. -/
def interleave (policy : Policy) (key : String) (requests : List RequestContext)
    (store : MemoryStore) (now : Time) (schedule : List Nat) :
    Pool EnvOp EnvRes Answer MemoryStore Time :=
  (Pool.start (requests.map fun req => evaluate .exact policy req key) store).run
    (MemoryStore.env .exact) (schedule.map fun thread => (thread, now))

def admittedCost (policy : Policy) (requests : List RequestContext)
    (history : List (Entry EnvOp EnvRes Time)) : Int :=
  tally swapSucceeded
    (fun thread : Fin requests.length => cost (requests.get thread) policy.algorithm) history

section Interleaving

variable {policy : Policy} {key : String} {requests : List RequestContext} {rate : ℚ}
  {now : Time} {cells after : Cells} {history : List (Entry EnvOp EnvRes Time)}
  {event : Event EnvOp EnvRes}
variable {time : Time}

private def monitors (policy : Policy) (key : String) (requests : List RequestContext) (now : Time)
    (thread : Nat) : Monitor EnvOp EnvRes (BucketProgress × Unit) Answer :=
  (watch policy (requests.getD thread {}) key now).monitor.both (stampMonitor (tsKey key) now)

private def stage (policy : Policy) (key : String) (requests : List RequestContext) (now : Time)
    (history : List (Entry EnvOp EnvRes Time)) : Nat → BucketProgress × Unit :=
  Pool.stages (monitors policy key requests now) (fun _ => ({}, ())) history

private theorem stage_taken (policy : Policy) (key : String) (requests : List RequestContext)
    (now : Time) (history : List (Entry EnvOp EnvRes Time)) (thread : Nat) :
    (stage policy key requests now history thread).1.taken =
      counted swapSucceeded history thread := by
  have taken := (watch policy (requests.getD thread {}) key now).follow_taken (own history thread) {}
  rw [stage, Pool.stages, monitors, Monitor.follow_both]
  exact taken

/-- A timestamp since which nothing leaks at this reading. -/
def Still (now : Time) (stamp : Int) : Prop := stamp = 0 ∨ stamp = now.nanos

/-- The level is what was admitted, and no call has read a timestamp of another instant. -/
private structure LevelKept (policy : Policy) (key : String) (requests : List RequestContext)
    (now : Time) (cells : Cells) (history : List (Entry EnvOp EnvRes Time)) : Prop where
  fresh : (cells (levelKey key)).value.expired now.nanos = false
  level : (cells (levelKey key)).value.value = 1000 * admittedCost policy requests history
  bounded : admittedCost policy requests history ≤ effectiveLimit policy.algorithm
  stamp : Still now (cells (tsKey key)).value.value
  read : ∀ thread last, (stage policy key requests now history thread).1.stamp = some last →
    Still now last

private theorem LevelKept.snoc_read (kept : LevelKept policy key requests now cells history)
    {thread : Nat}
    (reads : ∀ last, (((stage policy key requests now history thread).1).record (tsKey key) event.op
      event.result).stamp = some last → Still now last) (other : Nat) (last : Int)
    (found : (stage policy key requests now (history ++ [⟨thread, time, event⟩]) other).1.stamp =
      some last) : Still now last := by
  unfold stage at found
  rw [Pool.stages_snoc] at found
  rcases view_update_cases (fun reached : BucketProgress × Unit => reached.1.stamp) found
    with ⟨_, here⟩ | ⟨_, before⟩
  · exact reads last here
  · exact kept.read other last before

private theorem LevelKept.unswapped (kept : LevelKept policy key requests now cells history)
    {thread : Nat} (level : (after (levelKey key)).value = (cells (levelKey key)).value)
    (stamp : Still now (after (tsKey key)).value.value)
    (silent : swapSucceeded event.op event.result = false)
    (reads : ∀ last, (((stage policy key requests now history thread).1).record (tsKey key) event.op
      event.result).stamp = some last → Still now last) :
    LevelKept policy key requests now after (history ++ [⟨thread, time, event⟩]) := by
  have costs : admittedCost policy requests (history ++ [⟨thread, time, event⟩]) =
      admittedCost policy requests history := tally_snoc_uncounted silent
  exact ⟨level ▸ kept.fresh, by rw [level, costs, kept.level], costs ▸ kept.bounded, stamp,
    kept.snoc_read reads⟩

/-- Nothing has leaked at the instant of the last admission. -/
theorem level_of_still {last : Int} (still : Still now last) (stored : Int) :
    level rate now.nanos stored last = max 0 ((stored : ℚ) / 1000) := by
  have none : (if last = 0 then 0 else elapsed last now.nanos) = 0 := by
    rcases still with rfl | rfl
    · exact if_pos rfl
    · rw [elapsed_self, ite_self]
  rw [level, none, zero_mul, sub_zero]

theorem plan_take_of_still (leaks : leakRate policy.algorithm = .fin rate) {req : RequestContext}
    {admitted last level : Int} {decision : Decision} (nonneg : 0 ≤ admitted)
    (still : Still now last)
    (planned : plan .exact policy req now.nanos (1000 * admitted) last =
      .take level decision) :
    level = 1000 * (admitted + cost req policy.algorithm) ∧
      admitted + cost req policy.algorithm ≤ effectiveLimit policy.algorithm := by
  have full : LeakyBucket.level rate now.nanos (1000 * admitted) last = admitted := by
    have filled : (0 : ℚ) ≤ admitted := by exact_mod_cast nonneg
    rw [level_of_still still, Int.cast_mul, Int.cast_ofNat, mul_div_cancel_left₀ _ (by norm_num),
      max_eq_right filled]
  rw [plan_exact leaks, full] at planned
  split at planned
  · cases planned
  · next within =>
      cases planned
      refine ⟨?_, by exact_mod_cast not_lt.mp within⟩
      have whole : ((admitted : ℚ) + cost req policy.algorithm) * 1000 =
          ((1000 * (admitted + cost req policy.algorithm) : Int) : ℚ) := by
        push_cast
        ring
      rw [whole, GoFloat.roundHalfAway_intCast]

theorem admittedCost_nonneg (policy : Policy) (requests : List RequestContext)
    (history : List (Entry EnvOp EnvRes Time)) : 0 ≤ admittedCost policy requests history := by
  unfold admittedCost tally
  refine Finset.sum_nonneg fun thread _ => ?_
  split
  · exact (cost_pos _ _).le
  · exact le_refl 0

private theorem LevelKept.swapped (kept : LevelKept policy key requests now cells history)
    (leaks : leakRate policy.algorithm = .fin rate) (thread : Fin requests.length)
    {last newVal : Int} {decision : Decision} (first : counted swapSucceeded history thread = false)
    (effect : swapSucceeded event.op event.result = true) (still : Still now last)
    (planned : plan .exact policy (requests.get thread) now.nanos
      (cells (levelKey key)).value.value last = .take newVal decision)
    (written : (after (levelKey key)).value.value = newVal)
    (fresh : (after (levelKey key)).value.expired now.nanos = false)
    (stamp : Still now (after (tsKey key)).value.value)
    (reads : ∀ last, (((stage policy key requests now history thread).1).record (tsKey key) event.op
      event.result).stamp = some last → Still now last) :
    LevelKept policy key requests now after (history ++ [⟨thread, time, event⟩]) := by
  have costs : admittedCost policy requests (history ++ [⟨thread, time, event⟩]) =
      admittedCost policy requests history + cost (requests.get thread) policy.algorithm :=
    tally_snoc_counted thread first effect
  rw [kept.level] at planned
  obtain ⟨grown, within⟩ := plan_take_of_still leaks (admittedCost_nonneg _ _ _) still planned
  exact ⟨fresh, by rw [written, costs, grown], costs ▸ within, stamp, kept.snoc_read reads⟩

private theorem levelKept_step {thread : Nat} {op : EnvOp}
    (leaks : leakRate policy.algorithm = .fin rate) (inRange : thread < requests.length)
    (kept : LevelKept policy key requests now cells history) (together : time = now)
    (guarded : (monitors policy key requests now thread).guard
      (stage policy key requests now history thread) op) :
    (monitors policy key requests now thread).expects (stage policy key requests now history thread)
        op (Cells.env .exact time op cells).1 ∧
      LevelKept policy key requests now (Cells.env .exact time op cells).2
        (history ++ [⟨thread, time, ⟨op, (Cells.env .exact time op cells).1⟩⟩]) := by
  subst together
  obtain ⟨guarded, stamping⟩ := guarded
  change BucketWatch.guard _ (stage policy key requests time history thread).1 op at guarded
  have unread := kept.read thread
  cases op with
  | now => exact ⟨⟨rfl, rfl⟩, kept.unswapped rfl kept.stamp rfl unread⟩
  | wallClock => exact ⟨⟨trivial, trivial⟩, kept.unswapped rfl kept.stamp rfl unread⟩
  | store op =>
      refine ⟨⟨trivial, trivial⟩, ?_⟩
      cases op with
      | get other =>
          have seen : Still time ((cells (tsKey key)).value.live time.nanos).value := by
            rcases (cells (tsKey key)).value.live_value_cases time.nanos with same | zero
            · exact same ▸ kept.stamp
            · exact .inl zero
          refine kept.unswapped (Cells.get_value_of_fresh kept.fresh other) ?_ rfl ?_
          · rcases Cells.get_value_cases time.nanos (tsKey key) other cells with same | zero
            · exact (congrArg (Still time) same).mpr kept.stamp
            · exact .inl zero
          · intro last found
            by_cases same : other = tsKey key
            · rw [same] at found
              have stamped := (congrArg BucketProgress.stamp (if_pos rfl)).symm.trans found
              obtain rfl : _ = last := Option.some.inj stamped
              exact seen
            · exact unread last ((congrArg BucketProgress.stamp (if_neg same)).symm.trans found)
      | set other value ttl =>
          obtain ⟨keyed, timed⟩ : other = tsKey key ∧ value = time.nanos := stamping
          subst keyed timed
          have apart : levelKey key ≠ (CounterOp.set (tsKey key) time.nanos ttl).key :=
            (bucket policy.algorithm key).apart
          refine kept.unswapped ?_ (.inr ?_) rfl unread
          · rw [Cells.env, Cells.handle_other apart]
          · simp [Cells.env, Cells.handle, Cell.handle, CounterOp.key]
      | compareAndSwap other oldVal newVal ttl =>
          obtain ⟨untaken, keyed, reading, last, decision, _, timely, stamped, planned⟩ := guarded
          obtain rfl : other = levelKey key := keyed
          obtain rfl : time = reading := timely.symm
          have first : counted swapSucceeded history thread = false :=
            (stage_taken policy key requests time history thread).symm.trans untaken
          have request : requests.getD thread {} = requests.get ⟨thread, inRange⟩ := by simp [inRange]
          simp only [Cells.env, Cells.compareAndSwap_of_fresh kept.fresh]
          by_cases same : (cells (levelKey key)).value.value = oldVal
          · simp only [if_pos same]
            have still := unread last stamped
            refine kept.swapped leaks ⟨thread, inRange⟩ first rfl still (same ▸ request ▸ planned)
              ?_ ?_ ?_ unread
            · simp
            · simp only [Function.update_self]
              exact ValueItem.arm_unexpired kept.fresh
                (fun lasting => (Int.lt_add_of_pos_right _ lasting).le) newVal
            · have apart : tsKey key ≠ levelKey key := (bucket policy.algorithm key).apart.symm
              rw [Function.update_of_ne apart]
              exact kept.stamp
          · simp only [if_neg same]
            exact kept.unswapped rfl kept.stamp rfl unread
      | _ => exact absurd guarded id

private theorem monitors_accept (policy : Policy) (key : String) (requests : List RequestContext)
    (now : Time) (thread : Nat) (program : Evaluation Answer)
    (found : (requests.map fun req => evaluate .exact policy req key)[thread]? = some program) :
    (monitors policy key requests now thread).Accepts ({}, ()) program := by
  rw [List.getElem?_map, Option.map_eq_some_iff] at found
  obtain ⟨req, listed, rfl⟩ := found
  rw [monitors, List.getD_eq_getElem?_getD, listed]
  exact (evaluate_watched policy req key now).both (evaluate_stamps policy req key now)

/-- Calls running together at one instant: the stored level is what they were admitted for, and
they are admitted for no more than the limit. -/
theorem interleaved_level (policy : Policy) (key : String) (requests : List RequestContext)
    (store : MemoryStore) (rate : ℚ) (now : Time) (schedule : List Nat)
    (leaks : leakRate policy.algorithm = .fin rate)
    (absent : (bucket policy.algorithm key).Holds store.cells none) :
    ((interleave policy key requests store now schedule).state.cells (levelKey key)).value.value =
        1000 * admittedCost policy requests
          (interleave policy key requests store now schedule).history ∧
      admittedCost policy requests (interleave policy key requests store now schedule).history ≤
        effectiveLimit policy.algorithm ∧
      ∀ thread decision,
        (interleave policy key requests store now schedule).threads[thread]? =
            some (.done (.ok decision)) → decision.reason = "within_leaky_bucket" →
          counted swapSucceeded (interleave policy key requests store now schedule).history thread =
            true := by
  have empty : (store.cells (levelKey key)).value = {} := absent.level
  have ready : LevelKept policy key requests now store.cells [] := {
    fresh := by
      rw [empty]
      rfl
    level := by
      rw [empty, admittedCost, tally_nil]
      rfl
    bounded := by
      rw [admittedCost, tally_nil]
      exact (effectiveLimit_pos _).le
    stamp := .inl (congrArg ValueItem.value absent.stamp)
    read := by
      intro thread last found
      cases found }
  obtain ⟨followed, kept⟩ := Pool.run_invariant (Cells.env .exact)
    (monitors policy key requests now) (fun _ => ({}, ()))
    (LevelKept policy key requests now)
    (fun _ _ _ _ _ inRange kept together guarded =>
      levelKept_step leaks inRange kept together guarded)
    (schedule.map fun thread => (thread, now))
    (Pool.start (requests.map fun req => evaluate .exact policy req key) store.cells)
    (by simp [Pool.start])
    (Pool.followed_start (monitors_accept policy key requests now)) ready
    (Pool.along_of_readings _ _ (by
      intro choice member
      obtain ⟨thread, _, rfl⟩ := List.mem_map.mp member
      rfl))
  rw [MemoryStore.run_cells] at followed kept
  refine ⟨kept.level, kept.bounded, fun thread decision found reasoned => ?_⟩
  have accepted : (monitors policy key requests now thread).accept _ _ := followed thread _ found
  have taken := stage_taken policy key requests now
    (interleave policy key requests store now schedule).history thread
  exact taken.symm.trans (accepted.1.mpr ⟨decision, rfl, reasoned⟩)

private def twoUnits : Policy := { algorithm := { limit := 2, leakRate := .fin 1 } }

/-- Three calls that all read an absent bucket; the first swap makes the others try again. -/
theorem interleaved_level_of_three :
    leakRate twoUnits.algorithm = .fin 1 ∧
      ((interleave twoUnits "k" [{}, {}, {}] (.newSharded 1) ⟨second, utc⟩
        [0, 1, 2, 0, 1, 2, 0, 1, 2, 0, 1, 2, 1, 1, 2, 2, 1, 1, 2, 2, 2]).state.cells
          (levelKey "k")).value.value = 2000 ∧
      admittedCost twoUnits [{}, {}, {}] (interleave twoUnits "k" [{}, {}, {}] (.newSharded 1)
        ⟨second, utc⟩ [0, 1, 2, 0, 1, 2, 0, 1, 2, 0, 1, 2, 1, 1, 2, 2, 1, 1, 2, 2, 2]).history ≤
          effectiveLimit twoUnits.algorithm :=
  ⟨by decide +kernel, by decide +kernel, (interleaved_level twoUnits "k" [{}, {}, {}]
    (.newSharded 1) 1 ⟨second, utc⟩ [0, 1, 2, 0, 1, 2, 0, 1, 2, 0, 1, 2, 1, 1, 2, 2, 1, 1, 2, 2, 2]
    (by decide +kernel) ⟨rfl, rfl⟩).2.1⟩

end Interleaving

end LeakyBucket

end Rlaas.Algorithm
