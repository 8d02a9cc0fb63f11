import Rlaas.Store.Counter

/-! Package `common` and the two retry loops the algorithm packages share. -/

set_option autoImplicit false

namespace Rlaas.Algorithm

open Go Model Store Effect

def windowDuration (cfg : AlgorithmConfig) : Duration :=
  if cfg.window = "" then minute
  else
    match parseDuration cfg.window with
    | some d => d
    | none =>
        if cfg.window = "day" then 24 * hour
        else if cfg.window = "week" then 7 * 24 * hour
        else if cfg.window = "month" then 30 * 24 * hour
        else minute

theorem windowDuration_lt (cfg : AlgorithmConfig) : (windowDuration cfg : Int) < 2 ^ 63 := by
  unfold windowDuration
  split
  · decide
  · split
    · next d parsed => exact parseDuration_lt parsed
    · split_ifs <;> decide

def windowStart (now : Time) (cfg : AlgorithmConfig) : Time :=
  if cfg.window = "month" then Time.date now.month 1 0 now.loc
  else if cfg.window = "week" then
    -- Monday = 0 up to Sunday = 6; days before the month's first carry over.
    Time.date now.month (now.day - (now.weekday + 6) % 7) 0 now.loc
  else now.truncate (windowDuration cfg)

def windowEnd (now : Time) (cfg : AlgorithmConfig) : Time :=
  if cfg.window = "month" then (windowStart now cfg).addMonths 1
  else if cfg.window = "week" then (windowStart now cfg).add (7 * 24 * hour)
  else (windowStart now cfg).add (windowDuration cfg)

def cost (req : RequestContext) (cfg : AlgorithmConfig) : Int :=
  if cfg.costPerRequest > 0 then cfg.costPerRequest
  else if req.quantity > 0 then req.quantity
  else 1

theorem cost_pos (req : RequestContext) (cfg : AlgorithmConfig) : 0 < cost req cfg := by
  unfold cost
  split
  · assumption
  · split
    · assumption
    · decide

def overLimitDecision (policy : Policy) (clock : Time) (retryAfter : Duration) (remaining : Int)
    (reason : String) : Decision :=
  let d : Decision :=
    { allowed := false
      action := policy.action
      reason
      remaining
      retryAfter
      resetAt := (clock.add retryAfter).nanos }
  match policy.action with
  | .delay => { d with allowed := true, delayFor := retryAfter }
  | .sample => { d with sampleRate := policy.algorithm.sampleRate }
  | .downgrade => { d with allowed := true }
  | .shadowOnly => { d with allowed := true, shadowMode := true }
  | _ => d

section OverLimit

variable (policy : Policy) (clock : Time) (retryAfter : Duration) (remaining : Int) (reason : String)

theorem overLimitDecision_reason :
    (overLimitDecision policy clock retryAfter remaining reason).reason = reason := by
  unfold overLimitDecision
  cases policy.action <;> rfl

theorem overLimitDecision_retryAfter :
    (overLimitDecision policy clock retryAfter remaining reason).retryAfter = retryAfter := by
  unfold overLimitDecision
  cases policy.action <;> rfl

theorem overLimitDecision_action :
    (overLimitDecision policy clock retryAfter remaining reason).action = policy.action := by
  unfold overLimitDecision
  cases policy.action <;> rfl

end OverLimit

/-- Return an over-limit decision; its reset time is one more clock reading. -/
def refuse (policy : Policy) (retryAfter : Duration) (remaining : Int) (reason : String) :
    Evaluation Answer :=
  .call .wallClock fun clock =>
    .done (.ok (overLimitDecision policy clock retryAfter remaining reason))

def effectiveLimit (cfg : AlgorithmConfig) : Int :=
  if cfg.limit ≤ 0 then 1 else cfg.limit

theorem effectiveLimit_pos (cfg : AlgorithmConfig) : 0 < effectiveLimit cfg := by
  unfold effectiveLimit
  split
  · decide
  · next positive => exact not_le.mp positive

/-- The `maxRetries` each package defines, with the default of five. -/
def maxRetries (cfg : AlgorithmConfig) : Nat :=
  if cfg.maxRetries > 0 then cfg.maxRetries.toNat else 5

/-- What the fixed window, quota and sliding window counter put into their
common loop: the counter's key, the check of the value read, and the answers. -/
structure CounterRule where
  policy : Policy
  key : String
  cost : Int
  ttl : Duration
  overLimit : Int → Bool
  admission : Int → Decision
  retryAfter : Duration
  exceeded : String
  contention : String

def counterLoop (A : Arith) (rule : CounterRule) : Nat → Evaluation Answer
  | 0 => refuse rule.policy rule.retryAfter 0 rule.contention
  | attempts + 1 =>
      attempt (.get rule.key) fun curCount =>
        if rule.overLimit curCount then refuse rule.policy rule.retryAfter 0 rule.exceeded
        else
          attempt (.compareAndSwap rule.key curCount (A.wrap (curCount + rule.cost)) rule.ttl)
            fun swapped =>
              if swapped then .done (.ok (rule.admission curCount))
              else counterLoop A rule attempts

inductive BucketStep where
  | refuse (retryAfter : Duration) (remaining : Int)
  | take (newLevel : Int) (decision : Decision)

structure BucketRule where
  policy : Policy
  levelKey : String
  tsKey : String
  nowNanos : Int
  ttl : Duration
  plan : Int → Int → BucketStep
  exceeded : String
  contention : String

/-- The timestamp write after a swap: up to three tries, errors ignored. -/
def setTimestamp (rule : BucketRule) (decision : Decision) : Nat → Evaluation Answer
  | 0 => .done (.ok decision)
  | tries + 1 =>
      .call (.store (.set rule.tsKey rule.nowNanos rule.ttl)) fun answer =>
        match answer with
        | .ok _ => .done (.ok decision)
        | .error _ => setTimestamp rule decision tries

def bucketLoop (rule : BucketRule) : Nat → Evaluation Answer
  | 0 => refuse rule.policy (10 * millisecond) 0 rule.contention
  | attempts + 1 =>
      attempt (.get rule.levelKey) fun oldLevel =>
        attempt (.get rule.tsKey) fun lastNanos =>
          match rule.plan oldLevel lastNanos with
          | .refuse retryAfter remaining => refuse rule.policy retryAfter remaining rule.exceeded
          | .take newLevel decision =>
              attempt (.compareAndSwap rule.levelKey oldLevel newLevel rule.ttl) fun swapped =>
                if swapped then setTimestamp rule decision 3
                else bucketLoop rule attempts

section LoopRules

variable {S : Type} {monitor : Monitor EnvOp EnvRes S Answer}

/-- A swap that leaves the monitor where it was unless it succeeds. -/
structure Swaps (monitor : Monitor EnvOp EnvRes S Answer) (state : S) (key : String)
    (oldVal newVal : Int) (ttl : Duration) (after : Evaluation Answer) : Prop where
  guarded : monitor.guard state (.store (.compareAndSwap key oldVal newVal ttl))
  failed : ∀ message, monitor.advance state (.store (.compareAndSwap key oldVal newVal ttl))
    (.error message) = state
  missed : monitor.advance state (.store (.compareAndSwap key oldVal newVal ttl)) (.ok false) = state
  taken : monitor.Accepts
    (monitor.advance state (.store (.compareAndSwap key oldVal newVal ttl)) (.ok true)) after

theorem counterLoop_accepts {A : Arith} {rule : CounterRule} {attempts : Nat} {state : S}
    (reads : monitor.guard state (.store (.get rule.key)))
    (unmoved : ∀ answer, monitor.advance state (.store (.get rule.key)) answer = state)
    (fails : ∀ message, monitor.accept state (.error message))
    (exceeded : monitor.Accepts state (refuse rule.policy rule.retryAfter 0 rule.exceeded))
    (contention : monitor.Accepts state (refuse rule.policy rule.retryAfter 0 rule.contention))
    (swaps : ∀ value, monitor.expects state (.store (.get rule.key)) (.ok value) →
      rule.overLimit value = false →
      Swaps monitor state rule.key value (A.wrap (value + rule.cost)) rule.ttl
        (.done (.ok (rule.admission value)))) :
    monitor.Accepts state (counterLoop A rule attempts) := by
  induction attempts with
  | zero => exact contention
  | succ attempts ih =>
      refine accepts_attempt reads (fun message => ?_) fun value expected => ?_
      · rw [unmoved]
        exact fails message
      · rw [unmoved]
        cases checked : rule.overLimit value with
        | true => exact exceeded
        | false =>
            obtain ⟨guarded, failed, missed, taken⟩ := swaps value expected checked
            refine accepts_attempt guarded (fun message => ?_) fun swapped _ => ?_
            · rw [failed]
              exact fails message
            · cases swapped with
              | false =>
                  rw [missed]
                  exact ih
              | true => exact taken

theorem setTimestamp_accepts {rule : BucketRule} {decision : Decision} {tries : Nat} {state : S}
    (guarded : monitor.guard state (.store (.set rule.tsKey rule.nowNanos rule.ttl)))
    (unmoved : ∀ answer,
      monitor.advance state (.store (.set rule.tsKey rule.nowNanos rule.ttl)) answer = state)
    (accepted : monitor.accept state (.ok decision)) :
    monitor.Accepts state (setTimestamp rule decision tries) := by
  induction tries with
  | zero => exact accepted
  | succ tries ih =>
      refine ⟨guarded, fun answer _ => ?_⟩
      rw [unmoved]
      cases answer with
      | ok _ => exact accepted
      | error message => exact ih

/-- The monitor may move as long as it stays idle, which it is until the swap. -/
theorem bucketLoop_accepts {rule : BucketRule} {attempts : Nat} {state : S} (idle : S → Prop)
    (reads : ∀ state, idle state → ∀ key, key = rule.levelKey ∨ key = rule.tsKey →
      monitor.guard state (.store (.get key)) ∧
        ∀ answer, idle (monitor.advance state (.store (.get key)) answer))
    (fails : ∀ state, idle state → ∀ message, monitor.accept state (.error message))
    (refuses : ∀ state, idle state → ∀ retryAfter remaining reason,
      reason = rule.exceeded ∨ reason = rule.contention →
      monitor.Accepts state (refuse rule.policy retryAfter remaining reason))
    (swaps : ∀ state, idle state → ∀ oldLevel lastNanos level decision,
      rule.plan oldLevel lastNanos = .take level decision →
      Swaps monitor
        (monitor.advance (monitor.advance state (.store (.get rule.levelKey)) (.ok oldLevel))
          (.store (.get rule.tsKey)) (.ok lastNanos))
        rule.levelKey oldLevel level rule.ttl (setTimestamp rule decision 3))
    (initial : idle state) :
    monitor.Accepts state (bucketLoop rule attempts) := by
  induction attempts generalizing state with
  | zero => exact refuses state initial _ _ _ (.inr rfl)
  | succ attempts ih =>
      obtain ⟨levelGuarded, levelIdle⟩ := reads state initial _ (.inl rfl)
      refine accepts_attempt levelGuarded (fun message => fails _ (levelIdle _) message)
        fun oldLevel _ => ?_
      obtain ⟨stampGuarded, stampIdle⟩ := reads _ (levelIdle (.ok oldLevel)) _ (.inr rfl)
      refine accepts_attempt stampGuarded (fun message => fails _ (stampIdle _) message)
        fun lastNanos _ => ?_
      have current := stampIdle (.ok lastNanos)
      cases planned : rule.plan oldLevel lastNanos with
      | refuse retryAfter remaining => exact refuses _ current _ _ _ (.inl rfl)
      | take level decision =>
          obtain ⟨guarded, failed, missed, taken⟩ := swaps state initial _ _ _ _ planned
          refine accepts_attempt guarded (fun message => ?_) fun swapped _ => ?_
          · rw [failed]
            exact fails _ current message
          · cases swapped with
            | false =>
                rw [missed]
                exact ih current
            | true => exact taken

end LoopRules

end Rlaas.Algorithm
