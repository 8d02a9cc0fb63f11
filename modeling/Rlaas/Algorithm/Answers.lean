import Rlaas.Algorithm.Evaluators

/-! What the algorithms can answer: an error, an over-limit decision, or a plain
admission. Each of them can refuse, whatever its policy. -/

set_option autoImplicit false

namespace Rlaas.Algorithm

open Go Model Store Effect

inductive Answered (policy : Policy) : Answer → Prop where
  | failed {message : String} : Answered policy (.error message)
  | refused {clock : Time} {retryAfter : Duration} {remaining : Int} {reason : String} :
      Answered policy (.ok (overLimitDecision policy clock retryAfter remaining reason))
  | admitted {decision : Decision} :
      decision.allowed = true → decision.action = .allow → Answered policy (.ok decision)

def answering (policy : Policy) : Monitor EnvOp EnvRes Unit Answer where
  expects _ _ _ := True
  guard _ _ := True
  advance _ _ _ := ()
  accept _ := Answered policy

section Answers

variable {A : Arith} {policy : Policy} {req : RequestContext}

private theorem refuse_answers {retryAfter : Duration} {remaining : Int} {reason : String} :
    (answering policy).Accepts () (refuse policy retryAfter remaining reason) :=
  ⟨trivial, fun _ _ => .refused⟩

theorem counterLoop_answers (rule : CounterRule) (attempts : Nat)
    (admits : ∀ count, (rule.admission count).allowed = true ∧ (rule.admission count).action = .allow) :
    (answering rule.policy).Accepts () (counterLoop A rule attempts) := by
  refine counterLoop_accepts trivial (fun _ => rfl) (fun _ => .failed) refuse_answers
    refuse_answers ?_
  intro count _ _
  exact ⟨trivial, fun _ => rfl, rfl, .admitted (admits count).1 (admits count).2⟩

theorem bucketLoop_answers (rule : BucketRule) (attempts : Nat)
    (takes : ∀ old last level decision, rule.plan old last = .take level decision →
      decision.allowed = true ∧ decision.action = .allow) :
    (answering rule.policy).Accepts () (bucketLoop rule attempts) := by
  refine bucketLoop_accepts (fun _ => True) ?_ ?_ ?_ ?_ trivial
  · intro _ _ key _
    exact ⟨trivial, fun _ => trivial⟩
  · intro _ _ message
    exact .failed
  · intro _ _ retryAfter remaining reason _
    exact refuse_answers
  · intro _ _ old last level decision planned
    obtain ⟨allowed, action⟩ := takes _ _ _ _ planned
    exact ⟨trivial, fun _ => rfl, rfl,
      setTimestamp_accepts trivial (fun _ => rfl) (.admitted allowed action)⟩

theorem addTimestamps_answers {logKey : String} {now : Time} {window : Duration}
    {decision : Decision} (allowed : decision.allowed = true) (action : decision.action = .allow)
    (remaining : Nat) :
    (answering policy).Accepts () (SlidingLog.addTimestamps logKey now window decision remaining) := by
  induction remaining with
  | zero => exact .admitted allowed action
  | succ remaining ih => exact accepts_attempt trivial (fun _ => .failed) fun _ _ => ih

theorem slidingLog_answers (atomic : Bool) (key : String) :
    (answering policy).Accepts () (SlidingLog.evaluate A atomic policy req key) := by
  refine ⟨trivial, fun now _ => ?_⟩
  cases atomic with
  | true =>
      refine accepts_attempt trivial (fun _ => .failed) fun counted _ => ?_
      obtain ⟨count, within⟩ := counted
      cases within with
      | true => exact .admitted rfl rfl
      | false => exact refuse_answers
  | false =>
      refine accepts_attempt trivial (fun _ => .failed) fun _ _ => ?_
      refine accepts_attempt trivial (fun _ => .failed) fun count _ => ?_
      split
      · exact refuse_answers
      · exact addTimestamps_answers rfl rfl _

theorem evaluate_answers (atomic : Bool) (key : String) (kind : Kind) :
    (answering policy).Accepts () (kind.evaluate A atomic policy req key) := by
  cases kind with
  | fixedWindow =>
      exact ⟨trivial, fun now _ =>
        counterLoop_answers (FixedWindow.rule A policy req key now) _ fun _ => ⟨rfl, rfl⟩⟩
  | quota =>
      exact ⟨trivial, fun now _ =>
        counterLoop_answers (Quota.rule A policy req key now) _ fun _ => ⟨rfl, rfl⟩⟩
  | slidingCounter =>
      refine ⟨trivial, fun now _ => ?_⟩
      exact accepts_attempt trivial (fun _ => .failed) fun prevCount _ =>
        counterLoop_answers (SlidingCounter.rule A policy req key now prevCount) _
          fun _ => ⟨rfl, rfl⟩
  | tokenBucket =>
      exact ⟨trivial, fun now _ => bucketLoop_answers (TokenBucket.rule A policy req key now) _
        fun _ _ _ _ planned =>
          ⟨(TokenBucket.plan_admits planned).1, (TokenBucket.plan_admits planned).2.1⟩⟩
  | leakyBucket =>
      exact ⟨trivial, fun now _ => bucketLoop_answers (LeakyBucket.rule A policy req key now) _
        fun _ _ _ _ planned =>
          ⟨(LeakyBucket.plan_admits planned).1, (LeakyBucket.plan_admits planned).2.1⟩⟩
  | slidingLog => exact slidingLog_answers atomic key
  | concurrency =>
      refine accepts_attempt trivial (fun _ => .failed) fun acquired _ => ?_
      obtain ⟨granted, current⟩ := acquired
      cases granted with
      | true => exact .admitted rfl rfl
      | false => exact refuse_answers

theorem answered_of_run {atomic : Bool} {key : String} {kind : Kind}
    {events : List (Event EnvOp EnvRes)} {answer : Answer}
    (run : (kind.evaluate A atomic policy req key).Runs events answer) : Answered policy answer :=
  (evaluate_answers atomic key kind).result run fun _ _ _ => trivial

end Answers

section Refusals

variable {A : Arith} {policy : Policy} {req : RequestContext}

/-- Some behaviour of the environment makes the program answer over limit. -/
def CanRefuse (policy : Policy) (program : Evaluation Answer) : Prop :=
  ∃ events clock retryAfter remaining reason,
    program.Runs events (.ok (overLimitDecision policy clock retryAfter remaining reason))

theorem canRefuse_refuse (retryAfter : Duration) (remaining : Int) (reason : String) :
    CanRefuse policy (refuse policy retryAfter remaining reason) :=
  ⟨[⟨.wallClock, ⟨0, utc⟩⟩], ⟨0, utc⟩, retryAfter, remaining, reason, .call .done⟩

theorem canRefuse_call (op : EnvOp) {next : EnvRes op → Evaluation Answer} (answer : EnvRes op)
    (rest : CanRefuse policy (next answer)) : CanRefuse policy (.call op next) := by
  obtain ⟨events, clock, retryAfter, remaining, reason, run⟩ := rest
  exact ⟨⟨op, answer⟩ :: events, clock, retryAfter, remaining, reason, .call run⟩

theorem canRefuse_attempt {op : CounterOp} {next : op.Value → Evaluation Answer} (value : op.Value)
    (rest : CanRefuse policy (next value)) : CanRefuse policy (attempt op next) :=
  canRefuse_call (.store op) (.ok value) rest

/-- A loop that loses every swap ends with a refusal, if it does not before. -/
theorem canRefuse_counterLoop (rule : CounterRule) (attempts : Nat) :
    CanRefuse rule.policy (counterLoop A rule attempts) := by
  induction attempts with
  | zero => exact canRefuse_refuse _ _ _
  | succ attempts ih =>
      refine canRefuse_attempt 0 ?_
      split
      · exact canRefuse_refuse _ _ _
      · exact canRefuse_attempt false ih

theorem canRefuse_bucketLoop (rule : BucketRule) (attempts : Nat) :
    CanRefuse rule.policy (bucketLoop rule attempts) := by
  induction attempts with
  | zero => exact canRefuse_refuse _ _ _
  | succ attempts ih =>
      refine canRefuse_attempt 0 (canRefuse_attempt 0 ?_)
      cases rule.plan 0 0 with
      | refuse retryAfter remaining => exact canRefuse_refuse _ _ _
      | take level decision => exact canRefuse_attempt false ih

theorem canRefuse_evaluate (A : Arith) (policy : Policy) (req : RequestContext) (key : String)
    (kind : Kind) :
    CanRefuse policy (kind.evaluate A true policy req key) := by
  have now : Time := ⟨0, utc⟩
  cases kind with
  | fixedWindow =>
      exact canRefuse_call .now now (canRefuse_counterLoop (FixedWindow.rule A policy req key now) _)
  | quota =>
      exact canRefuse_call .now now (canRefuse_counterLoop (Quota.rule A policy req key now) _)
  | slidingCounter =>
      exact canRefuse_call .now now (canRefuse_attempt 0
        (canRefuse_counterLoop (SlidingCounter.rule A policy req key now 0) _))
  | tokenBucket =>
      exact canRefuse_call .now now (canRefuse_bucketLoop (TokenBucket.rule A policy req key now) _)
  | leakyBucket =>
      exact canRefuse_call .now now (canRefuse_bucketLoop (LeakyBucket.rule A policy req key now) _)
  | slidingLog =>
      exact canRefuse_call .now now (canRefuse_attempt (0, false) (canRefuse_refuse _ _ _))
  | concurrency => exact canRefuse_attempt (false, 0) (canRefuse_refuse _ _ _)

end Refusals

end Rlaas.Algorithm
