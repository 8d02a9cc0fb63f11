import Rlaas.Algorithm.SlidingCounterRuns
import Rlaas.Algorithm.WindowProperties

/-! Calls of the counter algorithms made one after another, where no window need be
of the width that the policy names: which counters a run has written and how long
they stay. -/

set_option autoImplicit false

namespace Rlaas.Algorithm

open Go Model Store Effect

/-- Counters named by the start of a window: each is absent, or its window was opened and it
lives for the time to live from the start on. -/
def OpenedCounters (counter : Int → String) (opened : Int → Prop) (ttl : Duration) (cells : Cells) :
    Prop :=
  ∀ start, (cells (counter start)).value = {} ∨
    opened start ∧ ∀ now ≤ start + ttl, (cells (counter start)).value.expired now = false

namespace OpenedCounters

variable {counter : Int → String} {opened : Int → Prop} {ttl : Duration} {cells : Cells}

section

variable (kept : OpenedCounters counter opened ttl cells)

include kept

theorem dropExpired (now : Int) (key : String) :
    OpenedCounters counter opened ttl (cells.dropExpired now key) := by
  intro start
  by_cases same : counter start = key
  · rw [← same, Cells.dropExpired_value_self, ValueItem.live]
    split
    · exact .inl rfl
    · exact kept start
  · rw [Cells.dropExpired_other now same]
    exact kept start

theorem store (injective : Function.Injective counter) {start now : Int} (here : opened start)
    (begun : start ≤ now) (lasting : 0 < ttl) (value : Int) :
    OpenedCounters counter opened ttl (cells.store now ttl (counter start) value) := by
  intro other
  by_cases same : other = start
  · subst same
    refine .inr ⟨here, fun later soon => ?_⟩
    rw [Cells.store_value_self, ValueItem.arm, if_pos lasting]
    simp only [ValueItem.expired, Bool.and_eq_false_iff, decide_eq_false_iff_not, not_lt]
    exact .inr (soon.trans (add_le_add_left begun ttl))
  · rw [Cells.store_other now ttl (injective.ne same)]
    exact kept other

theorem value_of_unopened {start : Int} (unopened : ¬opened start) :
    (cells (counter start)).value = {} :=
  (kept start).resolve_right fun written => unopened written.1

theorem unexpired {start now : Int} (soon : now ≤ start + ttl) :
    (cells (counter start)).value.expired now = false := by
  rcases kept start with absent | ⟨_, lasting⟩
  · rw [absent]
    rfl
  · exact lasting now soon

end

end OpenedCounters

theorem windowStart_le_self (cfg : AlgorithmConfig) (t : Int) :
    (windowStart ⟨t, utc⟩ cfg).nanos ≤ t := by
  by_cases positive : 0 < windowDuration cfg
  · exact windowStart_le positive t
  · exact (congrArg Time.nanos (windowStart_of_nonpositive (not_lt.mp positive) ⟨t, utc⟩)).le

/-- A window that was opened no later than an instant. -/
def OpenedBy (cfg : AlgorithmConfig) (now start : Int) : Prop :=
  ∃ t ≤ now, (windowStart ⟨t, utc⟩ cfg).nanos = start

theorem not_openedBy {cfg : AlgorithmConfig} {now start : Int} (later : now < start) :
    ¬OpenedBy cfg now start := by
  rintro ⟨t, passed, opened⟩
  have begun := windowStart_le_self cfg t
  omega

namespace Windowed

def kind : Windowed → Kind
  | .fixedWindow => .fixedWindow
  | .quota => .quota

def exceeded : Windowed → String
  | .fixedWindow => "fixed_window_limit_exceeded"
  | .quota => "quota_exceeded"

def rule (A : Arith) (policy : Policy) (req : RequestContext) (key : String) (now : Time) :
    Windowed → CounterRule
  | .fixedWindow => FixedWindow.rule A policy req key now
  | .quota => Quota.rule A policy req key now

def counterAt (key : String) (start : Int) : Windowed → String
  | .fixedWindow => key ++ ":" ++ toString start
  | .quota => key ++ ":quota:" ++ toString start

variable (alg : Windowed)

theorem counterAt_injective (key : String) :
    Function.Injective fun start => alg.counterAt key start := by
  intro start other same
  cases alg with
  | fixedWindow => exact Strings.append_toString_injective same
  | quota => exact Strings.append_toString_injective same

def counterOf (policy : Policy) (key : String) (now : Time) : String :=
  alg.counterAt key (windowStart now (alg.config policy.algorithm)).nanos

theorem visit_cases (policy : Policy) (key : String) (call : InstantCall) (store : MemoryStore) :
    (effectiveLimit policy.algorithm <
          seen store call.now.nanos (alg.counterOf policy key call.now) +
            cost call.req policy.algorithm ∧
        (visit .exact alg.kind policy key call store).result =
          .ok (overLimitDecision policy call.now
            ((windowEnd call.now (alg.config policy.algorithm)).nanos - call.now.nanos) 0
            alg.exceeded) ∧
        (visit .exact alg.kind policy key call store).after.cells =
          store.cells.dropExpired call.now.nanos (alg.counterOf policy key call.now)) ∨
      (seen store call.now.nanos (alg.counterOf policy key call.now) +
            cost call.req policy.algorithm ≤ effectiveLimit policy.algorithm ∧
        answered alg.within (visit .exact alg.kind policy key call store).result = true ∧
        (visit .exact alg.kind policy key call store).after.cells =
          store.cells.store call.now.nanos (windowDuration (alg.config policy.algorithm))
            (alg.counterOf policy key call.now)
            (seen store call.now.nanos (alg.counterOf policy key call.now) +
              cost call.req policy.algorithm)) := by
  have outcomes := counter_exec_cases .exact (fun now => alg.rule .exact policy call.req key now)
    policy.algorithm call.now store
  cases alg with
  | fixedWindow =>
      rcases outcomes with ⟨exceeds, result, cells⟩ | ⟨fits, result, cells⟩
      · exact .inl ⟨of_decide_eq_true exceeds, result, cells⟩
      · refine .inr ⟨not_lt.mp (of_decide_eq_false fits), ?_, cells⟩
        exact congrArg (answered _) result
  | quota =>
      rcases outcomes with ⟨exceeds, result, cells⟩ | ⟨fits, result, cells⟩
      · exact .inl ⟨of_decide_eq_true exceeds, result, cells⟩
      · refine .inr ⟨not_lt.mp (of_decide_eq_false fits), ?_, cells⟩
        exact congrArg (answered _) result

variable {alg}

theorem visited_opened {policy : Policy} {key : String} {calls : List InstantCall}
    {store : MemoryStore} {now : Int}
    (positive : 0 < windowDuration (alg.config policy.algorithm))
    (inUTC : ∀ call ∈ calls, call.now.loc = utc) (passed : ∀ call ∈ calls, call.now.nanos ≤ now)
    (absent : ∀ start, (store.cells (alg.counterAt key start)).value = {}) :
    OpenedCounters (fun start => alg.counterAt key start) (OpenedBy (alg.config policy.algorithm) now)
      (windowDuration (alg.config policy.algorithm))
      (visited .exact alg.kind policy key calls store).cells := by
  refine serialState_invariant (fun store : MemoryStore =>
    OpenedCounters (fun start => alg.counterAt key start) _ _ store.cells) ?_
    fun start => .inl (absent start)
  rintro ⟨req, t, _⟩ member store kept
  obtain rfl : _ = utc := inUTC _ member
  have before : t ≤ now := passed _ member
  rcases alg.visit_cases policy key ⟨req, ⟨t, utc⟩⟩ store with ⟨_, _, cells⟩ | ⟨_, _, cells⟩
  · exact cells.symm ▸ kept.dropExpired _ _
  · exact cells.symm ▸ kept.store (alg.counterAt_injective key) ⟨t, before, rfl⟩
      (windowStart_le positive t) positive _

end Windowed

namespace SlidingCounter

theorem visited_opened {policy : Policy} {key : String} {calls : List InstantCall}
    {store : MemoryStore} {now : Int}
    (inUTC : ∀ call ∈ calls, call.now.loc = utc) (passed : ∀ call ∈ calls, call.now.nanos ≤ now)
    (absent : ∀ start, (store.cells (counterAt key start)).value = {}) :
    OpenedCounters (counterAt key) (OpenedBy policy.algorithm now) (2 * window policy.algorithm)
      (visited .exact .slidingCounter policy key calls store).cells := by
  have lasting : (0 : Int) < 2 * window policy.algorithm := by
    have positive : (0 : Int) < window policy.algorithm := window_pos policy.algorithm
    omega
  refine serialState_invariant (fun store : MemoryStore =>
    OpenedCounters (counterAt key) _ _ store.cells) ?_ fun start => .inl (absent start)
  rintro ⟨req, t, _⟩ member store kept
  obtain rfl : _ = utc := inUTC _ member
  have before : t ≤ now := passed _ member
  rcases visit_cases policy key ⟨req, ⟨t, utc⟩⟩ store with ⟨_, _, cells⟩ | ⟨_, _, cells⟩
  · exact cells.symm ▸ (kept.dropExpired _ _).dropExpired _ _
  · exact cells.symm ▸ (kept.dropExpired _ _).store (fun _ _ => Strings.append_toString_injective)
      ⟨t, before, rfl⟩ (windowStart_le_self policy.algorithm t) lasting _

end SlidingCounter

end Rlaas.Algorithm
