import Rlaas.Algorithm.Alone
import Rlaas.Algorithm.SlidingCounterKeys
import Rlaas.Lib.Sliding

/-! Sliding window counter calls made one after another: while the counters
outlive the two windows in which they are read, the algorithm is the sliding
window estimated from two counters. -/

set_option autoImplicit false

namespace Rlaas.Algorithm

open Go Model Store Effect

namespace SlidingCounter

theorem window_pos (cfg : AlgorithmConfig) : 0 < window cfg := by
  unfold window
  split
  · decide
  · next positive => exact not_le.mp positive

section Exact

variable {policy : Policy} {cfg : AlgorithmConfig} {req : RequestContext} {key : String} {now : Time}

theorem limit_exact (cfg : AlgorithmConfig) :
    limit .exact cfg = .fin (effectiveLimit cfg : ℚ) := by
  unfold limit effectiveLimit
  simp only [GoFloat.ofInt_exact, GoFloat.le_fin, decide_eq_true_eq]
  by_cases unset : cfg.limit ≤ 0
  · rw [if_pos unset, if_pos (by exact_mod_cast unset), Int.cast_one]
  · rw [if_neg unset, if_neg (by exact_mod_cast unset)]

/-- The share of the previous counter in the estimate. -/
def share (cfg : AlgorithmConfig) (now : Time) : ℚ :=
  max 0 (((window cfg - (now.nanos - (windowStart now cfg).nanos) : Int) : ℚ) / window cfg)

theorem weight_exact (now : Time) (cfg : AlgorithmConfig) :
    weight .exact now cfg = .fin (share cfg now) := by
  have lasting : ((window cfg : Int) : ℚ) ≠ 0 := by exact_mod_cast ne_of_gt (window_pos cfg)
  unfold weight share
  simp only [GoFloat.ofInt_exact, exact_wrap, GoFloat.div_exact _ lasting, GoFloat.lt_fin,
    decide_eq_true_eq]
  split
  · next negative => rw [max_eq_left negative.le]
  · next nonneg => rw [max_eq_right (not_lt.mp nonneg)]

def estimate (cfg : AlgorithmConfig) (req : RequestContext) (now : Time) (prevCount curCount : Int) :
    ℚ :=
  ((curCount + cost req cfg : Int) : ℚ) + (prevCount : ℚ) * share cfg now

theorem overLimit_exact (prevCount curCount : Int) :
    (rule .exact policy req key now prevCount).overLimit curCount =
      decide ((effectiveLimit policy.algorithm : ℚ) <
        estimate policy.algorithm req now prevCount curCount) := by
  change (limit .exact policy.algorithm).lt (estimated ..) = _
  unfold estimated estimate
  simp only [limit_exact, weight_exact, GoFloat.ofInt_exact, exact_wrap, GoFloat.mul_exact,
    GoFloat.add_exact, GoFloat.lt_fin]

theorem prevKey_ne_curKey (key : String) (now : Time) (cfg : AlgorithmConfig) :
    prevKey .exact key now cfg ≠ curKey .exact key now cfg := by
  intro same
  have starts : (windowStart now cfg).nanos + -window cfg = (windowStart now cfg).nanos :=
    Strings.append_toString_injective same
  have lasting : (0 : Int) < window cfg := window_pos cfg
  omega

end Exact

section Visit

variable (policy : Policy) (req : RequestContext) (key : String) (now : Time)

theorem evaluate_exec (cells : Cells) :
    (evaluate .exact policy req key).exec (Cells.env .exact) (fun _ => now) cells =
      if (effectiveLimit policy.algorithm : ℚ) < estimate policy.algorithm req now
          ((cells (prevKey .exact key now policy.algorithm)).value.live now.nanos).value
          ((cells (curKey .exact key now policy.algorithm)).value.live now.nanos).value then
        (.ok (overLimitDecision policy now (rule .exact policy req key now 0).retryAfter 0
            "sliding_window_limit_exceeded"),
          (cells.dropExpired now.nanos (prevKey .exact key now policy.algorithm)).dropExpired now.nanos
            (curKey .exact key now policy.algorithm))
      else
        (.ok ((rule .exact policy req key now
            ((cells (prevKey .exact key now policy.algorithm)).value.live now.nanos).value).admission
              ((cells (curKey .exact key now policy.algorithm)).value.live now.nanos).value),
          (cells.dropExpired now.nanos (prevKey .exact key now policy.algorithm)).store now.nanos
            (2 * window policy.algorithm) (curKey .exact key now policy.algorithm)
            (((cells (curKey .exact key now policy.algorithm)).value.live now.nanos).value +
              cost req policy.algorithm)) := by
  obtain ⟨retries, tries⟩ := maxRetries_pos policy.algorithm
  rw [evaluate_keys, readNow, Program.exec_call, tries]
  change (attempt (.get (prevKey .exact key now policy.algorithm)) fun prevCount =>
    counterLoop .exact (rule .exact policy req key now prevCount) (retries + 1)).exec
      (Cells.env .exact) (fun _ => now) cells = _
  rw [exec_get, counterLoop_exec, rule_key,
    Cells.dropExpired_other now.nanos (prevKey_ne_curKey key now policy.algorithm).symm,
    overLimit_exact]
  simp only [decide_eq_true_eq]
  rfl

theorem visit_cases (call : InstantCall) (store : MemoryStore) :
    ((effectiveLimit policy.algorithm : ℚ) < estimate policy.algorithm call.req call.now
          (seen store call.now.nanos (prevKey .exact key call.now policy.algorithm))
          (seen store call.now.nanos (curKey .exact key call.now policy.algorithm)) ∧
        (visit .exact .slidingCounter policy key call store).result =
          .ok (overLimitDecision policy call.now
            (rule .exact policy call.req key call.now 0).retryAfter 0
              "sliding_window_limit_exceeded") ∧
        (visit .exact .slidingCounter policy key call store).after.cells =
          (store.cells.dropExpired call.now.nanos
            (prevKey .exact key call.now policy.algorithm)).dropExpired call.now.nanos
              (curKey .exact key call.now policy.algorithm)) ∨
      (estimate policy.algorithm call.req call.now
          (seen store call.now.nanos (prevKey .exact key call.now policy.algorithm))
          (seen store call.now.nanos (curKey .exact key call.now policy.algorithm)) ≤
          effectiveLimit policy.algorithm ∧
        (visit .exact .slidingCounter policy key call store).result =
          .ok ((rule .exact policy call.req key call.now
            (seen store call.now.nanos (prevKey .exact key call.now policy.algorithm))).admission
              (seen store call.now.nanos (curKey .exact key call.now policy.algorithm))) ∧
        (visit .exact .slidingCounter policy key call store).after.cells =
          (store.cells.dropExpired call.now.nanos
            (prevKey .exact key call.now policy.algorithm)).store call.now.nanos
              (2 * window policy.algorithm) (curKey .exact key call.now policy.algorithm)
              (seen store call.now.nanos (curKey .exact key call.now policy.algorithm) +
                cost call.req policy.algorithm)) := by
  have refined := MemoryStore.exec_cells .exact (evaluate .exact policy call.req key)
    (fun _ => call.now) store
  rw [evaluate_exec] at refined
  by_cases exceeds : (effectiveLimit policy.algorithm : ℚ) <
      estimate policy.algorithm call.req call.now
      (seen store call.now.nanos (prevKey .exact key call.now policy.algorithm))
      (seen store call.now.nanos (curKey .exact key call.now policy.algorithm))
  · have refused := (if_pos exceeds).symm.trans refined
    obtain ⟨result, cells⟩ := Prod.mk.inj refused
    exact .inl ⟨exceeds, result.symm, cells.symm⟩
  · have admitted := (if_neg exceeds).symm.trans refined
    obtain ⟨result, cells⟩ := Prod.mk.inj admitted
    exact .inr ⟨not_lt.mp exceeds, result.symm, cells.symm⟩

end Visit

theorem answered_iff (policy : Policy) (key : String) (call : InstantCall) (store : MemoryStore) :
    answered "within_sliding_window" (visit .exact .slidingCounter policy key call store).result =
        true ↔
      estimate policy.algorithm call.req call.now
          (seen store call.now.nanos (prevKey .exact key call.now policy.algorithm))
          (seen store call.now.nanos (curKey .exact key call.now policy.algorithm)) ≤
        effectiveLimit policy.algorithm := by
  rcases visit_cases policy key call store with ⟨exceeds, result, _⟩ | ⟨fits, result, _⟩
  · rw [result, answered, overLimitDecision_reason]
    exact iff_of_false (by decide) (not_le.mpr exceeds)
  · rw [result]
    exact iff_of_true rfl fits

def counterAt (key : String) (start : Int) : String := key ++ ":swc:" ++ toString start

/-- Every counter holds what was admitted in its window, and outlives the next window. -/
structure CountersKept (key : String) (sliding : Sliding InstantCall) (past : List InstantCall)
    (cells : Cells) : Prop where
  count : ∀ start, (cells (counterAt key start)).value.value = sliding.spent past start
  lasting : ∀ start now, now ≤ start + 2 * sliding.width →
    (cells (counterAt key start)).value.expired now = false

/-- The abstract limiter of a policy whose windows start as this function says. -/
def limiter (policy : Policy) (start : Int → Int) (begun : ∀ t, start t ≤ t)
    (pending : ∀ t, t < start t + window policy.algorithm) : Sliding InstantCall where
  time call := call.now.nanos
  amount call := cost call.req policy.algorithm
  costs _ := cost_pos _ _
  start
  width := window policy.algorithm
  begun
  pending
  limit := effectiveLimit policy.algorithm
  room := effectiveLimit_pos _

section Refinement

variable {policy : Policy} {key : String} {start : Int → Int} {begun : ∀ t, start t ≤ t}
  {pending : ∀ t, t < start t + window policy.algorithm} {past : List InstantCall}
  {call : InstantCall} {store : MemoryStore} {cells : Cells}

theorem curKey_eq {cfg : AlgorithmConfig} {now : Time}
    (starts : (windowStart now cfg).nanos = start now.nanos) :
    curKey .exact key now cfg = counterAt key (start now.nanos) :=
  congrArg (counterAt key) starts

theorem prevKey_eq {cfg : AlgorithmConfig} {now : Time}
    (starts : (windowStart now cfg).nanos = start now.nanos) :
    prevKey .exact key now cfg = counterAt key (start now.nanos - window cfg) :=
  congrArg (fun begin => counterAt key (begin - window cfg)) starts

theorem share_eq (starts : (windowStart call.now policy.algorithm).nanos = start call.now.nanos) :
    share policy.algorithm call.now =
      (limiter policy start begun pending).weight call.now.nanos := by
  have part := (limiter policy start begun pending).weight_pos call.now.nanos
  rw [share, starts]
  exact max_eq_right part.le

private theorem CountersKept.snoc
    (kept : CountersKept key (limiter policy start begun pending) past cells) :
    CountersKept key (limiter policy start begun pending) (past ++ [call])
      (cells.store call.now.nanos (2 * window policy.algorithm)
        (counterAt key (start call.now.nanos))
        ((limiter policy start begun pending).spent past (start call.now.nanos) +
          cost call.req policy.algorithm)) := by
  have opened := begun call.now.nanos
  refine ⟨fun other => ?_, fun other now soon => ?_⟩
  · rw [Sliding.spent_snoc]
    by_cases own : start call.now.nanos = other
    · subst own
      rw [Cells.store_value_self, ValueItem.arm_value]
      exact (congrArg (HAdd.hAdd _) (if_pos rfl)).symm
    · have apart : counterAt key other ≠ counterAt key (start call.now.nanos) := fun same =>
        own (Strings.append_toString_injective same).symm
      rw [Cells.store_other _ _ apart, kept.count]
      exact ((congrArg (HAdd.hAdd _) (if_neg own)).trans (add_zero _)).symm
  · by_cases own : start call.now.nanos = other
    · subst own
      have fresh := kept.lasting (start call.now.nanos) call.now.nanos
        ((limiter policy start begun pending).le_start_add call.now.nanos)
      rw [Cells.store_value_self, ValueItem.live_of_unexpired fresh]
      refine ValueItem.arm_unexpired (kept.lasting _ now soon) (fun _ => ?_) _
      exact soon.trans (add_le_add_left opened _)
    · have apart : counterAt key other ≠ counterAt key (start call.now.nanos) := fun same =>
        own (Strings.append_toString_injective same).symm
      rw [Cells.store_other _ _ apart]
      exact kept.lasting other now soon

/-- A call decides as the limiter does and leaves the counters of what was admitted. -/
theorem countersKept_step
    (kept : CountersKept key (limiter policy start begun pending) past store.cells)
    (starts : (windowStart call.now policy.algorithm).nanos = start call.now.nanos) :
    answered "within_sliding_window" (visit .exact .slidingCounter policy key call store).result =
        (limiter policy start begun pending).admits past call ∧
      CountersKept key (limiter policy start begun pending)
        (record (limiter policy start begun pending).admits past call)
        (visit .exact .slidingCounter policy key call store).after.cells := by
  have freshPrev := kept.lasting (start call.now.nanos - window policy.algorithm) call.now.nanos
    ((limiter policy start begun pending).le_previous_add call.now.nanos)
  have freshCur := kept.lasting (start call.now.nanos) call.now.nanos
    ((limiter policy start begun pending).le_start_add call.now.nanos)
  have loaded : estimate policy.algorithm call.req call.now
      (seen store call.now.nanos (prevKey .exact key call.now policy.algorithm))
      (seen store call.now.nanos (curKey .exact key call.now policy.algorithm)) =
      (limiter policy start begun pending).load past call := by
    rw [prevKey_eq starts, curKey_eq starts, seen, seen, ValueItem.live_of_unexpired freshPrev,
      ValueItem.live_of_unexpired freshCur, kept.count, kept.count, estimate, share_eq starts]
    rfl
  have outcome := visit_cases policy key call store
  rw [loaded] at outcome
  rcases outcome with ⟨exceeds, result, cells⟩ | ⟨within, result, cells⟩
  · have refused : (limiter policy start begun pending).admits past call = false :=
      decide_eq_false (not_le.mpr exceeds)
    rw [prevKey_eq starts, curKey_eq starts, Cells.dropExpired_of_fresh freshPrev,
      Cells.dropExpired_of_fresh freshCur] at cells
    rw [refused, record_of_refused refused, result, answered, overLimitDecision_reason, cells]
    exact ⟨rfl, kept⟩
  · have admitted : (limiter policy start begun pending).admits past call = true :=
      decide_eq_true within
    rw [prevKey_eq starts, curKey_eq starts, Cells.dropExpired_of_fresh freshPrev, seen,
      ValueItem.live_of_unexpired freshCur, kept.count] at cells
    rw [admitted, record_of_admitted admitted, result, cells]
    exact ⟨rfl, kept.snoc⟩

theorem countersKept_nil (sliding : Sliding InstantCall)
    (absent : ∀ start, (store.cells (counterAt key start)).value = {}) :
    CountersKept key sliding [] store.cells := by
  refine ⟨fun start => ?_, fun start now _ => ?_⟩
  · rw [absent]
    rfl
  · rw [absent]
    rfl

variable (begun pending) in
theorem visits_decisions {calls : List InstantCall}
    (absent : ∀ start, (store.cells (counterAt key start)).value = {})
    (starts : ∀ call ∈ calls,
      (windowStart call.now policy.algorithm).nanos = start call.now.nanos) :
    (visits .exact .slidingCounter policy key calls store).map
          (fun turn => answered "within_sliding_window" turn.result) =
        decisions (limiter policy start begun pending).admits [] calls ∧
      ((visits .exact .slidingCounter policy key calls store).filter fun turn =>
          answered "within_sliding_window" turn.result).map (fun turn => turn.call) =
        admitted (limiter policy start begun pending).admits [] calls := by
  exact serial_decisions (MemoryStore.env .exact)
    (fun call : InstantCall => evaluate .exact policy call.req key) InstantCall.clock
    (answered "within_sliding_window")
    (fun past store => CountersKept key (limiter policy start begun pending) past store.cells)
    (fun _ _ _ kept starts => countersKept_step kept starts) (countersKept_nil _ absent) starts

end Refinement

end SlidingCounter

end Rlaas.Algorithm
