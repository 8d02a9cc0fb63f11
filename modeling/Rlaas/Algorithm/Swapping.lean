import Rlaas.Algorithm.Charging

/-! Calls that charge one counter by compare-and-swap: the fixed window, the
quota and the sliding window counter. A monitor follows such a call and says
what it knows about the value it swaps out. -/

set_option autoImplicit false

namespace Rlaas.Algorithm

open Go Model Store Effect

/-- How far a call has got: its clock reading, and the value it swapped out. -/
structure Progress where
  now : Option Time := none
  taken : Option Int := none

def Progress.record (progress : Progress) : (op : EnvOp) → EnvRes op → Progress
  | .now, now => { progress with now := some now }
  | .store (.compareAndSwap _ oldVal _ _), .ok true => { progress with taken := some oldVal }
  | _, _ => progress

theorem Progress.record_taken (progress : Progress) (op : EnvOp) (answer : EnvRes op) :
    (progress.record op answer).taken.isSome =
      (progress.taken.isSome || swapSucceeded op answer) := by
  cases op with
  | now | wallClock => simp [record, swapSucceeded]
  | store op =>
      cases op with
      | compareAndSwap key oldVal newVal ttl =>
          rcases answer with message | swapped
          · simp [record, swapSucceeded]
          · cases swapped <;> simp [record, swapSucceeded]
      | _ => simp [record, swapSucceeded]

/-- What is known of the calls of an algorithm. `timely` and `credible` are
assumed of clock readings and of values read; `fits` is then known of the
value swapped out. -/
structure Swap where
  arith : Arith
  key : Time → String
  cost : Int
  ttl : Duration
  timely : Time → Prop
  credible : Int → Prop
  fits : Time → Int → Prop
  within : String

namespace Swap

def expects (swap : Swap) (_ : Progress) : (op : EnvOp) → EnvRes op → Prop
  | .now, now => swap.timely now
  | .store (.get _), .ok value => swap.credible value
  | _, _ => True

theorem expects_of_trivial {swap : Swap} (timely : ∀ now, swap.timely now)
    (credible : ∀ value, swap.credible value) (progress : Progress) (op : EnvOp)
    (answer : EnvRes op) : swap.expects progress op answer := by
  cases op with
  | now => exact timely answer
  | wallClock => trivial
  | store op =>
      cases op with
      | get key =>
          cases answer with
          | error message => trivial
          | ok value => exact credible value
      | _ => trivial

def guard (swap : Swap) (progress : Progress) (op : EnvOp) : Prop :=
  progress.taken = none ∧
    match op with
    | .now => True
    | .wallClock => True
    | .store (.get _) => True
    | .store (.compareAndSwap key oldVal newVal ttl) =>
        ∃ now, progress.now = some now ∧ swap.timely now ∧ swap.credible oldVal ∧
          key = swap.key now ∧ newVal = swap.arith.wrap (oldVal + swap.cost) ∧ ttl = swap.ttl ∧
          swap.fits now oldVal
    | _ => False

def monitor (swap : Swap) : Monitor EnvOp EnvRes Progress Answer where
  expects := swap.expects
  guard := swap.guard
  advance := Progress.record
  accept progress answer :=
    progress.taken.isSome = true ↔ ∃ decision, answer = .ok decision ∧ decision.reason = swap.within

theorem follow_taken (swap : Swap) (events : List (Event EnvOp EnvRes)) (progress : Progress) :
    (swap.monitor.follow progress events).taken.isSome =
      (progress.taken.isSome || events.any fun event => swapSucceeded event.op event.result) :=
  swap.monitor.follow_flag (fun progress => progress.taken.isSome) Progress.record_taken progress
    events

theorem unswapped_of_untaken {swap : Swap} {events : List (Event EnvOp EnvRes)}
    (untaken : (swap.monitor.follow {} events).taken = none) :
    (events.any fun event => swapSucceeded event.op event.result) = false := by
  have taken := swap.follow_taken events {}
  rw [untaken] at taken
  exact taken.symm

theorem swapped_iff_answered {swap : Swap} {events : List (Event EnvOp EnvRes)}
    {program : Evaluation Answer}
    (accepted : swap.monitor.Accepts (swap.monitor.follow {} events) program) :
    (events.any fun event => swapSucceeded event.op event.result) = true ↔
      ∃ decision, program = .done (.ok decision) ∧ decision.reason = swap.within := by
  have taken := swap.follow_taken events {}
  rw [Option.isSome_none, Bool.false_or] at taken
  rw [← taken]
  cases program with
  | done answer =>
      simp only [Program.done.injEq]
      exact accepted
  | call op next => simp [accepted.1.1]

end Swap

variable {swap : Swap} {now : Time}

private theorem swap_refuses {policy : Policy} {retryAfter : Duration} {remaining : Int}
    {reason : String} (other : reason ≠ swap.within) :
    swap.monitor.Accepts { now := some now } (refuse policy retryAfter remaining reason) := by
  refine ⟨⟨rfl, trivial⟩, fun clock _ => ?_⟩
  exact iff_of_false Bool.false_ne_true (overLimitDecision_not_within other)

theorem swap_fails (message : String) :
    swap.monitor.accept { now := some now } (.error message) := by
  change false = true ↔ _
  simp

theorem counterLoop_swaps (swap : Swap) (rule : CounterRule) (timely : swap.timely now)
    (keyed : rule.key = swap.key now) (costs : rule.cost = swap.cost) (lasting : rule.ttl = swap.ttl)
    (fitting : ∀ value, swap.credible value → rule.overLimit value = false → swap.fits now value)
    (exceeded : rule.exceeded ≠ swap.within) (contention : rule.contention ≠ swap.within)
    (admits : ∀ value, (rule.admission value).reason = swap.within) (attempts : Nat) :
    swap.monitor.Accepts { now := some now } (counterLoop swap.arith rule attempts) := by
  refine counterLoop_accepts ⟨rfl, trivial⟩ (fun _ => rfl) swap_fails (swap_refuses exceeded)
    (swap_refuses contention) ?_
  intro value credible checked
  refine ⟨⟨rfl, now, rfl, timely, credible, keyed, by rw [costs], lasting,
    fitting value credible checked⟩, fun _ => rfl, rfl, ?_⟩
  change true = true ↔ _
  simp [admits]

end Rlaas.Algorithm
