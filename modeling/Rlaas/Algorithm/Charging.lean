import Rlaas.Algorithm.Evaluators
import Rlaas.Lib.Monitor

/-! What an evaluation charges. A ledger follows the store operations of one
call, whatever the store answers, and the answer of every algorithm agrees with
it: one charge for an admission, none and no write at all for a refusal. -/

set_option autoImplicit false

namespace Rlaas.Algorithm

open Go Model Store Effect

/-- A charging operation took effect: a successful swap, an allowed
check-and-add, a granted lease. An operation that failed changed nothing. -/
def charges : (op : EnvOp) → EnvRes op → Bool
  | .store (.compareAndSwap ..), .ok swapped => swapped
  | .store (.checkAndAddTimestamps ..), .ok counted => counted.2
  | .store (.acquireLease ..), .ok acquired => acquired.1
  | _, _ => false

def swapSucceeded : (op : EnvOp) → EnvRes op → Bool
  | .store (.compareAndSwap ..), .ok swapped => swapped
  | _, _ => false

/-- An operation stored something: a charge, or any other write that did not
fail. Dropping expired entries while reading is not a write. -/
def writes : (op : EnvOp) → EnvRes op → Bool
  | .store (.increment ..), .ok _ => true
  | .store (.set ..), .ok _ => true
  | .store (.delete ..), .ok _ => true
  | .store (.addTimestamp ..), .ok _ => true
  | .store (.releaseLease ..), .ok _ => true
  | .store (.compareAndSwap ..), .ok swapped => swapped
  | .store (.checkAndAddTimestamps ..), .ok counted => counted.2
  | .store (.acquireLease ..), .ok acquired => acquired.1
  | _, _ => false

def overLimitReasons : List String :=
  ["fixed_window_limit_exceeded", "fixed_window_contention", "quota_exceeded", "quota_contention",
    "sliding_window_limit_exceeded", "sliding_window_contention", "token_bucket_depleted",
    "token_bucket_contention", "leaky_bucket_overflow", "leaky_bucket_contention",
    "sliding_log_limit_exceeded", "concurrency_limit_exceeded"]

def admittedReasons : List String :=
  ["within_fixed_window", "within_quota", "within_sliding_window", "token_available",
    "within_leaky_bucket", "within_sliding_log", "concurrency_slot_acquired"]

def answeredOverLimit : Answer → Bool
  | .ok d => overLimitReasons.contains d.reason
  | .error _ => false

structure Ledger where
  charged : Nat := 0
  written : Bool := false

def Ledger.record (ledger : Ledger) (op : EnvOp) (answer : EnvRes op) : Ledger where
  charged := ledger.charged + (charges op answer).toNat
  written := ledger.written || writes op answer

/-- The three ways a call can end, with what it has done by then. -/
inductive Settled (policy : Policy) : Ledger → Answer → Prop where
  | failed {message : String} : Settled policy {} (.error message)
  | refused {clock : Time} {retryAfter : Duration} {remaining : Int} {reason : String} :
      reason ∈ overLimitReasons →
      Settled policy {} (.ok (overLimitDecision policy clock retryAfter remaining reason))
  | admitted {decision : Decision} :
      decision.allowed = true → decision.reason ∈ admittedReasons →
      Settled policy { charged := 1, written := true } (.ok decision)

theorem Settled.unwritten {policy : Policy} {ledger : Ledger} {answer : Answer}
    (settled : Settled policy ledger answer) (refused : answeredOverLimit answer = true) :
    ledger.written = false := by
  cases settled with
  | failed => rfl
  | refused _ => rfl
  | @admitted decision _ within =>
      have disjoint : ∀ reason ∈ admittedReasons, reason ∉ overLimitReasons := by decide
      exact absurd (List.contains_iff_mem.mp refused) (disjoint decision.reason within)

def settlement (policy : Policy) : Monitor EnvOp EnvRes Ledger Answer where
  expects _ _ _ := True
  guard _ _ := True
  advance := Ledger.record
  accept := Settled policy

theorem overLimitDecision_not_within {policy : Policy} {clock : Time} {retryAfter : Duration}
    {remaining : Int} {reason within : String} (other : reason ≠ within) :
    ¬∃ decision, (.ok (overLimitDecision policy clock retryAfter remaining reason) : Answer) =
      .ok decision ∧ decision.reason = within := by
  rintro ⟨decision, answered, reasoned⟩
  cases answered
  exact other (overLimitDecision_reason policy clock retryAfter remaining reason ▸ reasoned)

variable {policy : Policy}

private theorem accepts_refuse {retryAfter : Duration} {remaining : Int} {reason : String}
    (known : reason ∈ overLimitReasons) :
    (settlement policy).Accepts {} (refuse policy retryAfter remaining reason) :=
  ⟨trivial, fun _ _ => .refused known⟩

theorem counterLoop_settles (A : Arith) (rule : CounterRule)
    (exceeded : rule.exceeded ∈ overLimitReasons) (contention : rule.contention ∈ overLimitReasons)
    (allowed : ∀ count, (rule.admission count).allowed = true)
    (within : ∀ count, (rule.admission count).reason ∈ admittedReasons) (attempts : Nat) :
    (settlement rule.policy).Accepts {} (counterLoop A rule attempts) := by
  refine counterLoop_accepts trivial (fun _ => rfl) (fun _ => .failed) (accepts_refuse exceeded)
    (accepts_refuse contention) ?_
  intro count _ _
  exact ⟨trivial, fun _ => rfl, rfl, .admitted (allowed count) (within count)⟩

theorem bucketLoop_settles (rule : BucketRule)
    (exceeded : rule.exceeded ∈ overLimitReasons) (contention : rule.contention ∈ overLimitReasons)
    (taken : ∀ old last level decision, rule.plan old last = .take level decision →
      decision.allowed = true ∧ decision.reason ∈ admittedReasons) (attempts : Nat) :
    (settlement rule.policy).Accepts {} (bucketLoop rule attempts) := by
  refine bucketLoop_accepts (fun ledger => ledger = {}) ?_ ?_ ?_ ?_ rfl
  · rintro ledger rfl key _
    exact ⟨trivial, fun _ => rfl⟩
  · rintro ledger rfl message
    exact .failed
  · rintro ledger rfl retryAfter remaining reason known
    rcases known with rfl | rfl
    · exact accepts_refuse exceeded
    · exact accepts_refuse contention
  · rintro ledger rfl old last level decision planned
    obtain ⟨allowed, within⟩ := taken _ _ _ _ planned
    refine ⟨trivial, fun _ => rfl, rfl, ?_⟩
    exact setTimestamp_accepts trivial (fun answer => by cases answer <;> rfl)
      (.admitted allowed within)

theorem slidingLog_settles (A : Arith) (policy : Policy) (req : RequestContext) (key : String) :
    (settlement policy).Accepts {} (SlidingLog.evaluate A true policy req key) := by
  refine ⟨trivial, fun now _ => ?_⟩
  refine accepts_attempt trivial (fun _ => .failed) fun counted _ => ?_
  obtain ⟨count, allowed⟩ := counted
  cases allowed with
  | false => exact accepts_refuse (by decide)
  | true => exact .admitted rfl (by simp [SlidingLog.within, admittedReasons])

theorem concurrency_settles (A : Arith) (policy : Policy) (key : String) :
    (settlement policy).Accepts {} (Concurrency.evaluate A policy key) := by
  refine accepts_attempt trivial (fun _ => .failed) fun acquired _ => ?_
  obtain ⟨granted, current⟩ := acquired
  cases granted with
  | false => exact accepts_refuse (by decide)
  | true => exact .admitted rfl (by simp [admittedReasons])

theorem slidingCounter_settles (A : Arith) (policy : Policy) (req : RequestContext) (key : String) :
    (settlement policy).Accepts {} (SlidingCounter.evaluate A policy req key) := by
  refine ⟨trivial, fun now _ => ?_⟩
  refine accepts_attempt trivial (fun _ => .failed) fun prevCount _ => ?_
  exact counterLoop_settles A (SlidingCounter.rule A policy req key now prevCount)
    (by simp [SlidingCounter.rule, overLimitReasons]) (by simp [SlidingCounter.rule, overLimitReasons])
        (fun _ => rfl) (fun _ => by simp [SlidingCounter.rule, admittedReasons]) _

/-- Every algorithm settles every call, against a store that may answer
anything and fail at any step. -/
theorem evaluate_settles (A : Arith) (policy : Policy) (req : RequestContext) (key : String)
    (kind : Kind) : (settlement policy).Accepts {} (kind.evaluate A true policy req key) := by
  cases kind with
  | fixedWindow =>
      refine ⟨trivial, fun now _ => ?_⟩
      exact counterLoop_settles A (FixedWindow.rule A policy req key now)
        (by simp [FixedWindow.rule, overLimitReasons]) (by simp [FixedWindow.rule, overLimitReasons])
        (fun _ => rfl) (fun _ => by simp [FixedWindow.rule, admittedReasons]) _
  | quota =>
      refine ⟨trivial, fun now _ => ?_⟩
      exact counterLoop_settles A (Quota.rule A policy req key now)
        (by simp [Quota.rule, overLimitReasons]) (by simp [Quota.rule, overLimitReasons])
        (fun _ => rfl) (fun _ => by simp [Quota.rule, admittedReasons]) _
  | slidingCounter => exact slidingCounter_settles A policy req key
  | tokenBucket =>
      refine ⟨trivial, fun now _ => ?_⟩
      exact bucketLoop_settles (TokenBucket.rule A policy req key now)
        (by simp [TokenBucket.rule, overLimitReasons]) (by simp [TokenBucket.rule, overLimitReasons])
        (fun _ _ _ _ planned => by
          obtain ⟨allowed, -, reason⟩ := TokenBucket.plan_admits planned
          exact ⟨allowed, by simp [reason, admittedReasons]⟩) _
  | leakyBucket =>
      refine ⟨trivial, fun now _ => ?_⟩
      exact bucketLoop_settles (LeakyBucket.rule A policy req key now)
        (by simp [LeakyBucket.rule, overLimitReasons]) (by simp [LeakyBucket.rule, overLimitReasons])
        (fun _ _ _ _ planned => by
          obtain ⟨allowed, -, reason⟩ := LeakyBucket.plan_admits planned
          exact ⟨allowed, by simp [reason, admittedReasons]⟩) _
  | slidingLog => exact slidingLog_settles A policy req key
  | concurrency => exact concurrency_settles A policy key

end Rlaas.Algorithm
