import Mathlib.Data.List.Basic

/-! Runs of a deterministic step function, and conditions on their steps. -/

set_option autoImplicit false

namespace Effect

variable {σ ε : Type}
variable {step : σ → ε → σ}

/-- Every step of the run meets a condition on the state it starts from. -/
def AllSteps (step : σ → ε → σ) (condition : σ → ε → Prop) : σ → List ε → Prop
  | _, [] => True
  | state, event :: rest => condition state event ∧ AllSteps step condition (step state event) rest

theorem AllSteps.and {first second : σ → ε → Prop} {state : σ} {events : List ε}
    (left : AllSteps step first state events) (right : AllSteps step second state events) :
    AllSteps step (fun state event => first state event ∧ second state event) state events := by
  induction events generalizing state with
  | nil => trivial
  | cons event rest ih => exact ⟨⟨left.1, right.1⟩, ih left.2 right.2⟩

/-- Two conditions that agree wherever an invariant of every step holds. -/
theorem AllSteps.iff_of_invariant {first second : σ → ε → Prop} (invariant : σ → Prop)
    (preserve : ∀ state event, invariant state → invariant (step state event))
    (agree : ∀ state event, invariant state → (first state event ↔ second state event))
    {events : List ε} {state : σ} (initial : invariant state) :
    AllSteps step first state events ↔ AllSteps step second state events := by
  induction events generalizing state with
  | nil => exact Iff.rfl
  | cons event rest ih =>
      exact and_congr (agree state event initial) (ih (preserve state event initial))

theorem foldl_invariant {condition : σ → ε → Prop} (invariant : σ → Prop)
    (preserve : ∀ state event, invariant state → condition state event →
      invariant (step state event)) (events : List ε) (state : σ) (initial : invariant state)
    (along : AllSteps step condition state events) : invariant (events.foldl step state) := by
  induction events generalizing state with
  | nil => exact initial
  | cons event rest ih =>
      exact ih (step state event) (preserve state event initial along.1) along.2

/-- How many steps of the run a test on the state they start from singles out. -/
def countSteps (step : σ → ε → σ) (counts : σ → ε → Bool) : σ → List ε → Nat
  | _, [] => 0
  | state, event :: rest =>
      (if counts state event then 1 else 0) + countSteps step counts (step state event) rest

theorem countSteps_eq_zero_iff {counts : σ → ε → Bool} {state : σ} {events : List ε} :
    countSteps step counts state events = 0 ↔
      AllSteps step (fun state event => counts state event = false) state events := by
  induction events generalizing state with
  | nil => simp [countSteps, AllSteps]
  | cons event rest ih => simp [countSteps, AllSteps, ih]

theorem foldl_measure {condition : σ → ε → Prop} (counts : σ → ε → Bool) (invariant : σ → Prop)
    (measure : σ → Int)
    (preserve : ∀ state event, invariant state → condition state event →
      invariant (step state event) ∧
        measure (step state event) = measure state + if counts state event then 1 else 0)
    (events : List ε) (state : σ) (initial : invariant state)
    (along : AllSteps step condition state events) :
    invariant (events.foldl step state) ∧
      measure (events.foldl step state) = measure state + countSteps step counts state events := by
  induction events generalizing state with
  | nil => exact ⟨initial, by simp [countSteps]⟩
  | cons event rest ih =>
      obtain ⟨kept, moved⟩ := preserve state event initial along.1
      obtain ⟨final, total⟩ := ih (step state event) kept along.2
      refine ⟨final, ?_⟩
      rw [List.foldl_cons, total, moved, countSteps]
      cases counts state event with
      | false => simp
      | true => simp [Int.add_assoc]

theorem foldl_kept (invariant : σ → Prop)
    (preserve : ∀ state event, invariant state → invariant (step state event)) (events : List ε)
    {state : σ} (initial : invariant state) :
    invariant (events.foldl step state) := by
  induction events generalizing state with
  | nil => exact initial
  | cons event rest ih => exact ih (preserve state event initial)

end Effect
