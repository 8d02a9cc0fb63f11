import Rlaas.Algorithm.Swapping
import Rlaas.Algorithm.Tiling
import Rlaas.Store.MemoryCells

/-! The two algorithms that keep one counter for each window, and what calls
running at the same time in one window do to it. -/

set_option autoImplicit false

namespace Rlaas.Algorithm

open Go Model Store Effect

inductive Windowed where
  | fixedWindow
  | quota
  deriving DecidableEq

namespace Windowed

def evaluate (A : Arith) (policy : Policy) (req : RequestContext) (key : String) :
    Windowed → Evaluation Answer
  | .fixedWindow => FixedWindow.evaluate A policy req key
  | .quota => Quota.evaluate A policy req key

def config (cfg : AlgorithmConfig) : Windowed → AlgorithmConfig
  | .fixedWindow => cfg
  | .quota => Quota.period cfg

def counterKey (A : Arith) (key : String) (now : Time) (cfg : AlgorithmConfig) : Windowed → String
  | .fixedWindow => FixedWindow.windowKey A key now cfg
  | .quota => Quota.bucketKey A key now cfg

def within : Windowed → String
  | .fixedWindow => "within_fixed_window"
  | .quota => "within_quota"

def swap (A : Arith) (policy : Policy) (req : RequestContext) (key : String) (timely : Time → Prop)
    (credible : Int → Prop) (alg : Windowed) : Swap where
  arith := A
  key now := alg.counterKey A key now policy.algorithm
  cost := cost req policy.algorithm
  ttl := windowDuration (alg.config policy.algorithm)
  timely
  credible
  fits _ value := A.wrap (value + cost req policy.algorithm) ≤ effectiveLimit policy.algorithm
  within := alg.within

theorem evaluate_swaps (A : Arith) (policy : Policy) (req : RequestContext) (key : String)
    (timely : Time → Prop) (credible : Int → Prop) (alg : Windowed) :
    (alg.swap A policy req key timely credible).monitor.Accepts {}
      (alg.evaluate A policy req key) := by
  cases alg with
  | fixedWindow =>
      refine ⟨⟨rfl, trivial⟩, fun now expected => ?_⟩
      exact counterLoop_swaps (swap A policy req key timely credible .fixedWindow)
        (FixedWindow.rule A policy req key now) expected rfl rfl rfl
        (fun value _ checked => not_lt.mp (of_decide_eq_false checked))
        (by simp [FixedWindow.rule, swap, within]) (by simp [FixedWindow.rule, swap, within])
        (fun _ => rfl) _
  | quota =>
      refine ⟨⟨rfl, trivial⟩, fun now expected => ?_⟩
      exact counterLoop_swaps (swap A policy req key timely credible .quota)
        (Quota.rule A policy req key now) expected rfl rfl rfl
        (fun value _ checked => not_lt.mp (of_decide_eq_false checked))
        (by simp [Quota.rule, swap, within]) (by simp [Quota.rule, swap, within])
        (fun _ => rfl) _

end Windowed

def InWindow (cfg : AlgorithmConfig) (moment t : Time) : Prop :=
  (windowStart t cfg).nanos = (windowStart moment cfg).nanos ∧
    (windowStart moment cfg).nanos ≤ t.nanos ∧ t.nanos < (windowEnd moment cfg).nanos

theorem counterKey_of_inWindow (alg : Windowed) {key : String} {cfg : AlgorithmConfig}
    {moment t : Time} (inside : InWindow (alg.config cfg) moment t) :
    alg.counterKey .exact key t cfg = alg.counterKey .exact key moment cfg := by
  cases alg with
  | fixedWindow =>
      simp only [Windowed.counterKey, FixedWindow.windowKey, Time.unixNano, exact_wrap]
      rw [show (windowStart t cfg).nanos = (windowStart moment cfg).nanos from inside.1]
  | quota =>
      simp only [Windowed.counterKey, Quota.bucketKey, Time.unixNano, exact_wrap]
      rw [show (windowStart t (Quota.period cfg)).nanos =
        (windowStart moment (Quota.period cfg)).nanos from inside.1]

/-- Calls with one policy and key, interleaved on a store as the schedule says. -/
def Windowed.interleave (alg : Windowed) (policy : Policy) (key : String)
    (requests : List RequestContext) (store : MemoryStore) (schedule : List (Nat × Time)) :
    Pool EnvOp EnvRes Answer MemoryStore Time :=
  (Pool.start (requests.map fun req => alg.evaluate .exact policy req key) store).run
    (MemoryStore.env .exact) schedule

def swappedCost (policy : Policy) (requests : List RequestContext)
    (history : List (Entry EnvOp EnvRes Time)) : Int :=
  tally swapSucceeded (fun thread : Fin requests.length => cost (requests.get thread) policy.algorithm)
    history

private structure WindowKept (policy : Policy) (requests : List RequestContext) (counter : String)
    (closing : Int) (cells : Cells) (history : List (Entry EnvOp EnvRes Time)) : Prop where
  value : (cells counter).value.value = swappedCost policy requests history
  bounded : swappedCost policy requests history ≤ effectiveLimit policy.algorithm
  lasting : (cells counter).value.expiry = zeroNanos ∨ closing ≤ (cells counter).value.expiry

section Interleaving

variable {policy : Policy} {requests : List RequestContext} {counter : String} {closing : Int}
  {cells : Cells} {history : List (Entry EnvOp EnvRes Time)} {time : Time}

section

variable (kept : WindowKept policy requests counter closing cells history)

include kept

private theorem WindowKept.fresh (early : time.nanos < closing) :
    (cells counter).value.expired time.nanos = false := by
  unfold ValueItem.expired
  rcases kept.lasting with unset | late
  · simp [unset]
  · simp only [Bool.and_eq_false_iff, decide_eq_false_iff_not, not_lt]
    exact .inr (le_of_lt (lt_of_lt_of_le early late))

private theorem WindowKept.unswapped {after : Cells}
    (same : (after counter).value = (cells counter).value) {thread : Nat}
    {event : Event EnvOp EnvRes} (silent : swapSucceeded event.op event.result = false) :
    WindowKept policy requests counter closing after (history ++ [⟨thread, time, event⟩]) := by
  have total : swappedCost policy requests (history ++ [⟨thread, time, event⟩]) =
      swappedCost policy requests history := tally_snoc_uncounted silent
  exact ⟨by rw [same, total, kept.value], by rw [total]; exact kept.bounded, by
    rw [same]; exact kept.lasting⟩

private theorem WindowKept.swapped {ttl : Duration} {event : Event EnvOp EnvRes}
    (thread : Fin requests.length) (first : counted swapSucceeded history thread = false)
    (effect : swapSucceeded event.op event.result = true)
    (fits : (cells counter).value.value + cost requests[thread] policy.algorithm ≤
      effectiveLimit policy.algorithm) (early : time.nanos < closing)
    (armed : closing ≤ time.nanos + ttl) :
    WindowKept policy requests counter closing
      (Function.update cells counter { cells counter with
        value := ValueItem.arm time.nanos ttl { (cells counter).value with
          value := (cells counter).value.value + cost requests[thread] policy.algorithm } })
      (history ++ [⟨thread, time, event⟩]) := by
  have total : swappedCost policy requests (history ++ [⟨thread, time, event⟩]) =
      swappedCost policy requests history + cost requests[thread] policy.algorithm :=
    tally_snoc_counted thread first effect
  have positive : (0 : Int) < ttl := by omega
  refine ⟨?_, ?_, ?_⟩
  · rw [Function.update_self, total, ValueItem.arm_value, kept.value]
  · rw [total, ← kept.value]
    exact fits
  · simp [ValueItem.arm, positive, armed]

end

private def windowMonitor (alg : Windowed) (policy : Policy) (key : String)
    (requests : List RequestContext) (moment : Time) (thread : Nat) :
    Monitor EnvOp EnvRes Progress Answer :=
  (alg.swap .exact policy (requests.getD thread {}) key
    (InWindow (alg.config policy.algorithm) moment) fun _ => True).monitor

private theorem windowMonitor_accepts (alg : Windowed) (policy : Policy) (key : String)
    (requests : List RequestContext) (moment : Time) (thread : Nat) (program : Evaluation Answer)
    (found : (requests.map fun req => alg.evaluate .exact policy req key)[thread]? =
      some program) :
    (windowMonitor alg policy key requests moment thread).Accepts {} program := by
  rw [List.getElem?_map, Option.map_eq_some_iff] at found
  obtain ⟨req, listed, rfl⟩ := found
  rw [windowMonitor, List.getD_eq_getElem?_getD, listed]
  exact Windowed.evaluate_swaps .exact policy req key _ _ alg

private theorem windowKept_step {alg : Windowed} {key : String} {moment : Time} {thread : Nat}
    {op : EnvOp}
    (whole : (windowEnd moment (alg.config policy.algorithm)).nanos -
      (windowStart moment (alg.config policy.algorithm)).nanos =
        windowDuration (alg.config policy.algorithm))
    (inRange : thread < requests.length)
    (kept : WindowKept policy requests (alg.counterKey .exact key moment policy.algorithm)
      (windowEnd moment (alg.config policy.algorithm)).nanos cells history)
    (inside : InWindow (alg.config policy.algorithm) moment time)
    (guarded : (windowMonitor alg policy key requests moment thread).guard
      ((windowMonitor alg policy key requests moment thread).follow {} (own history thread)) op) :
    (windowMonitor alg policy key requests moment thread).expects
        ((windowMonitor alg policy key requests moment thread).follow {} (own history thread)) op
        (Cells.env .exact time op cells).1 ∧
      WindowKept policy requests (alg.counterKey .exact key moment policy.algorithm)
        (windowEnd moment (alg.config policy.algorithm)).nanos
        (Cells.env .exact time op cells).2
        (history ++ [⟨thread, time, ⟨op, (Cells.env .exact time op cells).1⟩⟩]) := by
  obtain ⟨untaken, shape⟩ := guarded
  have fresh := kept.fresh inside.2.2
  cases op with
  | now => exact ⟨inside, kept.unswapped rfl rfl⟩
  | wallClock => exact ⟨trivial, kept.unswapped rfl rfl⟩
  | store op =>
      cases op with
      | get other =>
          exact ⟨trivial, kept.unswapped (Cells.get_value_of_fresh fresh other) rfl⟩
      | compareAndSwap other oldVal newVal ttl =>
          obtain ⟨now, _, timely, _, keyed, summed, lasting, fits⟩ := shape
          have first : counted swapSucceeded history thread = false :=
            Swap.unswapped_of_untaken untaken
          have request : requests.getD thread {} = requests[thread] := by simp [inRange]
          obtain rfl : other = alg.counterKey .exact key moment policy.algorithm :=
            keyed.trans (counterKey_of_inWindow alg timely)
          obtain rfl : newVal = oldVal + cost requests[thread] policy.algorithm :=
            request ▸ summed
          obtain rfl : ttl = windowDuration (alg.config policy.algorithm) := lasting
          refine ⟨trivial, ?_⟩
          simp only [Cells.env, Cells.compareAndSwap_of_fresh fresh]
          by_cases same : (cells (alg.counterKey .exact key moment policy.algorithm)).value.value =
              oldVal
          · subst same
            simp only [if_true]
            have begun := inside.2.1
            exact kept.swapped ⟨thread, inRange⟩ first rfl (request ▸ fits) inside.2.2 (by omega)
          · simp only [if_neg same]
            exact kept.unswapped rfl rfl
      | _ => exact absurd shape id

/-- In every state that calls of one window can reach together, the counter is
the cost of the calls whose swap succeeded, which is within the limit, and
those are the calls answered as within the window. -/
theorem interleaved_window_calls (alg : Windowed) (policy : Policy) (key : String)
    (requests : List RequestContext) (store : MemoryStore) (moment : Time)
    (schedule : List (Nat × Time))
    (whole : (windowEnd moment (alg.config policy.algorithm)).nanos -
      (windowStart moment (alg.config policy.algorithm)).nanos =
        windowDuration (alg.config policy.algorithm))
    (absent : (store.cells (alg.counterKey .exact key moment policy.algorithm)).value = {})
    (inside : ∀ choice ∈ schedule, InWindow (alg.config policy.algorithm) moment choice.2) :
    ((alg.interleave policy key requests store schedule).state.cells
        (alg.counterKey .exact key moment policy.algorithm)).value.value =
      swappedCost policy requests (alg.interleave policy key requests store schedule).history ∧
    swappedCost policy requests (alg.interleave policy key requests store schedule).history ≤
      effectiveLimit policy.algorithm ∧
    ∀ thread < requests.length,
      (counted swapSucceeded (alg.interleave policy key requests store schedule).history thread =
          true ↔
        ∃ decision, (alg.interleave policy key requests store schedule).threads[thread]? =
          some (.done (.ok decision)) ∧ decision.reason = alg.within) := by
  have unspent : swappedCost policy requests [] = 0 := tally_nil
  obtain ⟨followed, kept⟩ := Pool.run_invariant (Cells.env .exact)
    (windowMonitor alg policy key requests moment) (fun _ => {})
    (WindowKept policy requests (alg.counterKey .exact key moment policy.algorithm)
      (windowEnd moment (alg.config policy.algorithm)).nanos)
    (fun _ _ _ _ _ inRange kept inside guarded => windowKept_step whole inRange kept inside guarded)
    schedule
    (Pool.start (requests.map fun req => alg.evaluate .exact policy req key) store.cells)
    (by simp [Pool.start])
    (Pool.followed_start (windowMonitor_accepts alg policy key requests moment))
    ⟨by simp [Pool.start, absent, unspent], unspent ▸ le_of_lt (effectiveLimit_pos _),
      .inl (by simp [Pool.start, absent])⟩
    (Pool.along_of_readings schedule _ inside)
  rw [MemoryStore.run_cells] at followed kept
  refine ⟨kept.value, kept.bounded, fun thread inRange => ?_⟩
  have present : thread < (alg.interleave policy key requests store schedule).threads.length := by
    rw [Windowed.interleave, Pool.run_threads_length]
    simpa [Pool.start] using inRange
  rw [List.getElem?_eq_getElem present]
  simp only [Option.some.injEq]
  exact Swap.swapped_iff_answered (followed thread _ (List.getElem?_eq_getElem present))

private def pairPolicy : Policy := { algorithm := { limit := 2, window := "1h" } }

private def noon : Time := ⟨12 * hour, utc⟩

private theorem noon_inWindow : InWindow pairPolicy.algorithm noon noon :=
  ⟨rfl, by decide, by decide⟩

/-- Two calls of cost one that read the same count: the second swap fails once. -/
theorem interleaved_pair_of_calls :
    swappedCost pairPolicy [{}, {}]
      (Windowed.fixedWindow.interleave pairPolicy "k" [{}, {}] (.newSharded 4)
        (([0, 1, 0, 1, 0, 1, 1, 1] : List Nat).map fun thread => (thread, noon))).history ≤ 2 :=
  (interleaved_window_calls .fixedWindow pairPolicy "k" [{}, {}] (.newSharded 4) noon
    (([0, 1, 0, 1, 0, 1, 1, 1] : List Nat).map fun thread => (thread, noon))
    (windowEnd_sub_windowStart (by decide) noon) rfl
    (by
      intro choice member
      obtain ⟨thread, _, rfl⟩ := List.mem_map.mp member
      exact noon_inWindow)).2.1

end Interleaving

end Rlaas.Algorithm
