import Rlaas.Algorithm.Common

/-! The `Evaluate` methods of the seven algorithm packages. -/

set_option autoImplicit false

namespace Rlaas.Algorithm

open Go Model Store Effect

namespace FixedWindow

def windowKey (A : Arith) (key : String) (now : Time) (cfg : AlgorithmConfig) : String :=
  key ++ ":" ++ toString ((windowStart now cfg).unixNano A)

def rule (A : Arith) (policy : Policy) (req : RequestContext) (key : String) (now : Time) :
    CounterRule :=
  let cfg := policy.algorithm
  { policy
    key := windowKey A key now cfg
    cost := cost req cfg
    ttl := windowDuration cfg
    overLimit := fun curCount => decide (A.wrap (curCount + cost req cfg) > effectiveLimit cfg)
    admission := fun curCount =>
      { allowed := true
        action := .allow
        reason := "within_fixed_window"
        remaining := A.wrap (effectiveLimit cfg - A.wrap (curCount + cost req cfg))
        resetAt := (windowEnd now cfg).nanos }
    retryAfter := (windowEnd now cfg).nanos - now.nanos
    exceeded := "fixed_window_limit_exceeded"
    contention := "fixed_window_contention" }

def evaluate (A : Arith) (policy : Policy) (req : RequestContext) (key : String) : Evaluation Answer :=
  readNow fun now => counterLoop A (rule A policy req key now) (maxRetries policy.algorithm)

end FixedWindow

namespace Quota

def period (cfg : AlgorithmConfig) : AlgorithmConfig :=
  { window := if cfg.quotaPeriod = "" then "day" else cfg.quotaPeriod }

def bucketKey (A : Arith) (key : String) (now : Time) (cfg : AlgorithmConfig) : String :=
  key ++ ":quota:" ++ toString ((windowStart now (period cfg)).unixNano A)

def rule (A : Arith) (policy : Policy) (req : RequestContext) (key : String) (now : Time) :
    CounterRule :=
  let cfg := policy.algorithm
  { policy
    key := bucketKey A key now cfg
    cost := cost req cfg
    ttl := windowDuration (period cfg)
    overLimit := fun consumed => decide (A.wrap (consumed + cost req cfg) > effectiveLimit cfg)
    admission := fun consumed =>
      { allowed := true
        action := .allow
        reason := "within_quota"
        remaining := A.wrap (effectiveLimit cfg - A.wrap (consumed + cost req cfg))
        resetAt := (windowEnd now (period cfg)).nanos }
    retryAfter := (windowEnd now (period cfg)).nanos - now.nanos
    exceeded := "quota_exceeded"
    contention := "quota_contention" }

def evaluate (A : Arith) (policy : Policy) (req : RequestContext) (key : String) : Evaluation Answer :=
  readNow fun now => counterLoop A (rule A policy req key now) (maxRetries policy.algorithm)

end Quota

namespace SlidingCounter

def window (cfg : AlgorithmConfig) : Duration :=
  if windowDuration cfg ≤ 0 then minute else windowDuration cfg

def counterKey (A : Arith) (key : String) (start : Time) : String :=
  key ++ ":swc:" ++ toString (start.unixNano A)

def limit (A : Arith) (cfg : AlgorithmConfig) : GoFloat :=
  let limit := GoFloat.ofInt A cfg.limit
  if limit.le (.fin 0) then .fin 1 else limit

def weight (A : Arith) (now : Time) (cfg : AlgorithmConfig) : GoFloat :=
  let elapsed := now.nanos - (windowStart now cfg).nanos
  let weight := GoFloat.div A (GoFloat.ofInt A (A.wrap (window cfg - elapsed)))
    (GoFloat.ofInt A (window cfg))
  if weight.lt (.fin 0) then .fin 0 else weight

def estimated (A : Arith) (policy : Policy) (req : RequestContext) (now : Time)
    (prevCount curCount : Int) : GoFloat :=
  GoFloat.add A (GoFloat.ofInt A (A.wrap (curCount + cost req policy.algorithm)))
    (GoFloat.mul A (GoFloat.ofInt A prevCount) (weight A now policy.algorithm))

def rule (A : Arith) (policy : Policy) (req : RequestContext) (key : String) (now : Time)
    (prevCount : Int) : CounterRule :=
  let cfg := policy.algorithm
  let curStart := windowStart now cfg
  { policy
    key := counterKey A key curStart
    cost := cost req cfg
    ttl := A.wrap (2 * window cfg)
    overLimit := fun curCount => (limit A cfg).lt (estimated A policy req now prevCount curCount)
    admission := fun curCount =>
      { allowed := true
        action := .allow
        reason := "within_sliding_window"
        remaining := A.toInt
          (GoFloat.sub A (limit A cfg) (estimated A policy req now prevCount curCount))
        resetAt := (curStart.add (window cfg)).nanos }
    retryAfter := (curStart.add (window cfg)).nanos - now.nanos
    exceeded := "sliding_window_limit_exceeded"
    contention := "sliding_window_contention" }

def evaluate (A : Arith) (policy : Policy) (req : RequestContext) (key : String) : Evaluation Answer :=
  readNow fun now =>
    attempt (.get (counterKey A key ((windowStart now policy.algorithm).add
        (-window policy.algorithm)))) fun prevCount =>
      counterLoop A (rule A policy req key now prevCount) (maxRetries policy.algorithm)

end SlidingCounter

namespace TokenBucket

def capacity (cfg : AlgorithmConfig) : Int :=
  if cfg.burst ≤ 0 then (if cfg.limit ≤ 0 then 1 else cfg.limit) else cfg.burst

def refillRate (A : Arith) (cfg : AlgorithmConfig) : GoFloat :=
  if cfg.refillRate.le (.fin 0) then
    let rate := GoFloat.div A (GoFloat.ofInt A cfg.limit)
      (Duration.seconds A (windowDuration cfg))
    if rate.le (.fin 0) then .fin 1 else rate
  else cfg.refillRate

def curTokens (A : Arith) (cfg : AlgorithmConfig) (nowNanos oldTokenMilli lastNanos : Int) : GoFloat :=
  let stored :=
    if lastNanos = 0 then GoFloat.ofInt A (capacity cfg)
    else GoFloat.div A (GoFloat.ofInt A oldTokenMilli) (.fin 1000)
  let since := if lastNanos = 0 then nowNanos else lastNanos
  let elapsed := GoFloat.div A (GoFloat.ofInt A (A.wrap (nowNanos - since))) (GoFloat.ofInt A second)
  let elapsed := if elapsed.lt (.fin 0) then .fin 0 else elapsed
  GoFloat.min (GoFloat.ofInt A (capacity cfg))
    (GoFloat.add A stored (GoFloat.mul A elapsed (refillRate A cfg)))

def plan (A : Arith) (policy : Policy) (req : RequestContext) (nowNanos : Int)
    (oldTokenMilli lastNanos : Int) : BucketStep :=
  let cfg := policy.algorithm
  let cost := GoFloat.ofInt A (cost req cfg)
  let curTokens := curTokens A cfg nowNanos oldTokenMilli lastNanos
  if curTokens.lt cost then
    let missing := GoFloat.sub A cost curTokens
    .refuse
      (A.toInt (GoFloat.mul A (GoFloat.div A missing (refillRate A cfg)) (GoFloat.ofInt A second)))
      (A.toInt curTokens)
  else
    let newTokens := GoFloat.sub A curTokens cost
    .take (A.toInt (GoFloat.mul A newTokens (.fin 1000)).round)
      { allowed := true
        action := .allow
        reason := "token_available"
        remaining := A.toInt newTokens }

theorem plan_admits {A : Arith} {policy : Policy} {req : RequestContext}
    {nowNanos old last level : Int} {decision : Decision}
    (planned : plan A policy req nowNanos old last = .take level decision) :
    decision.allowed = true ∧ decision.action = .allow ∧ decision.reason = "token_available" := by
  unfold plan at planned
  simp only at planned
  split at planned
  · cases planned
  · cases planned
    exact ⟨rfl, rfl, rfl⟩

def rule (A : Arith) (policy : Policy) (req : RequestContext) (key : String) (now : Time) : BucketRule :=
  { policy
    levelKey := key ++ ":tb:tokens"
    tsKey := key ++ ":tb:ts"
    nowNanos := now.unixNano A
    ttl := 2 * hour
    plan := plan A policy req (now.unixNano A)
    exceeded := "token_bucket_depleted"
    contention := "token_bucket_contention" }

def evaluate (A : Arith) (policy : Policy) (req : RequestContext) (key : String) : Evaluation Answer :=
  readNow fun now => bucketLoop (rule A policy req key now) (maxRetries policy.algorithm)

end TokenBucket

namespace LeakyBucket

def leakRate (cfg : AlgorithmConfig) : GoFloat :=
  if cfg.leakRate.le (.fin 0) then .fin 1 else cfg.leakRate

def ttl (A : Arith) (cfg : AlgorithmConfig) : Duration :=
  let ttl := A.wrap (2 * windowDuration cfg)
  if ttl < 2 * hour then 2 * hour else ttl

def drainedLevel (A : Arith) (cfg : AlgorithmConfig) (nowNanos oldLevelMilli lastNanos : Int) : GoFloat :=
  let since := if lastNanos = 0 then nowNanos else lastNanos
  let elapsed := GoFloat.div A (GoFloat.ofInt A (A.wrap (nowNanos - since))) (GoFloat.ofInt A second)
  let elapsed := if elapsed.lt (.fin 0) then .fin 0 else elapsed
  GoFloat.max (.fin 0)
    (GoFloat.sub A (GoFloat.div A (GoFloat.ofInt A oldLevelMilli) (.fin 1000))
      (GoFloat.mul A elapsed (leakRate cfg)))

def plan (A : Arith) (policy : Policy) (req : RequestContext) (nowNanos : Int)
    (oldLevelMilli lastNanos : Int) : BucketStep :=
  let cfg := policy.algorithm
  let limit := GoFloat.ofInt A (effectiveLimit cfg)
  let curLevel := GoFloat.add A (drainedLevel A cfg nowNanos oldLevelMilli lastNanos)
    (GoFloat.ofInt A (cost req cfg))
  if limit.lt curLevel then
    let overflow := GoFloat.sub A curLevel limit
    .refuse
      (A.toInt (GoFloat.mul A (GoFloat.div A overflow (leakRate cfg)) (GoFloat.ofInt A second))) 0
  else
    .take (A.toInt (GoFloat.mul A curLevel (.fin 1000)).round)
      { allowed := true
        action := .allow
        reason := "within_leaky_bucket"
        remaining := A.toInt (GoFloat.sub A limit curLevel) }

theorem plan_admits {A : Arith} {policy : Policy} {req : RequestContext}
    {nowNanos old last level : Int} {decision : Decision}
    (planned : plan A policy req nowNanos old last = .take level decision) :
    decision.allowed = true ∧ decision.action = .allow ∧ decision.reason = "within_leaky_bucket" := by
  unfold plan at planned
  simp only at planned
  split at planned
  · cases planned
  · cases planned
    exact ⟨rfl, rfl, rfl⟩

def rule (A : Arith) (policy : Policy) (req : RequestContext) (key : String) (now : Time) : BucketRule :=
  { policy
    levelKey := key ++ ":lb:level"
    tsKey := key ++ ":lb:ts"
    nowNanos := now.unixNano A
    ttl := ttl A policy.algorithm
    plan := plan A policy req (now.unixNano A)
    exceeded := "leaky_bucket_overflow"
    contention := "leaky_bucket_contention" }

def evaluate (A : Arith) (policy : Policy) (req : RequestContext) (key : String) : Evaluation Answer :=
  readNow fun now => bucketLoop (rule A policy req key now) (maxRetries policy.algorithm)

end LeakyBucket

namespace SlidingLog

def computeRetryAfter (A : Arith) (window : Duration) (count cost limit : Int) : Duration :=
  if count ≤ 0 then window
  else
    let retryAfter := A.toInt (GoFloat.div A
      (GoFloat.mul A (GoFloat.ofInt A window)
        (GoFloat.ofInt A (A.wrap (A.wrap (count + cost) - limit))))
      (GoFloat.ofInt A count))
    if retryAfter ≤ 0 then second else retryAfter

def exceeded (A : Arith) (policy : Policy) (req : RequestContext) (count : Int) : Evaluation Answer :=
  let cfg := policy.algorithm
  let limit := effectiveLimit cfg
  refuse policy (computeRetryAfter A (windowDuration cfg) count (cost req cfg) limit)
    (A.wrap (limit - count)) "sliding_log_limit_exceeded"

def within (A : Arith) (policy : Policy) (req : RequestContext) (now : Time) (count : Int) : Decision :=
  let cfg := policy.algorithm
  { allowed := true
    action := .allow
    reason := "within_sliding_log"
    remaining := A.wrap (effectiveLimit cfg - A.wrap (count + cost req cfg))
    resetAt := (now.add (windowDuration cfg)).nanos }

def addTimestamps (logKey : String) (now : Time) (window : Duration) (decision : Decision) :
    Nat → Evaluation Answer
  | 0 => .done (.ok decision)
  | remaining + 1 =>
      attempt (.addTimestamp logKey now.nanos window) fun _ =>
        addTimestamps logKey now window decision remaining

/-- `atomic` says whether the store offers `CheckAndAddTimestamps`. -/
def evaluate (A : Arith) (atomic : Bool) (policy : Policy) (req : RequestContext) (key : String) :
    Evaluation Answer :=
  let cfg := policy.algorithm
  let window := windowDuration cfg
  let limit := effectiveLimit cfg
  let cost := cost req cfg
  let logKey := key ++ ":swl"
  readNow fun now =>
    let cutoff := (now.add (A.wrap (-window))).nanos
    if atomic then
      attempt (.checkAndAddTimestamps logKey cutoff limit cost now.nanos window) fun counted =>
        if counted.2 then .done (.ok (within A policy req now counted.1))
        else exceeded A policy req counted.1
    else
      attempt (.trimBefore logKey cutoff) fun _ =>
        attempt (.countAfter logKey cutoff) fun count =>
          if A.wrap (count + cost) > limit then exceeded A policy req count
          else addTimestamps logKey now window (within A policy req now count) cost.toNat

end SlidingLog

namespace Concurrency

def maxLeases (cfg : AlgorithmConfig) : Int :=
  if cfg.maxConcurrency ≤ 0 then (if cfg.limit ≤ 0 then 1 else cfg.limit) else cfg.maxConcurrency

def leaseTTL (A : Arith) (cfg : AlgorithmConfig) : Duration :=
  if cfg.leaseTTL > 0 then A.wrap (cfg.leaseTTL * second) else 2 * minute

def evaluate (A : Arith) (policy : Policy) (key : String) : Evaluation Answer :=
  let limit := maxLeases policy.algorithm
  attempt (.acquireLease (key ++ ":concurrency") limit (leaseTTL A policy.algorithm)) fun acquired =>
    if acquired.1 then
      .done (.ok
        { allowed := true
          action := .allow
          reason := "concurrency_slot_acquired"
          remaining := A.wrap (limit - acquired.2) })
    else refuse policy (100 * millisecond) 0 "concurrency_limit_exceeded"

end Concurrency

inductive Kind where
  | fixedWindow
  | tokenBucket
  | slidingCounter
  | concurrency
  | quota
  | leakyBucket
  | slidingLog
  deriving DecidableEq

def Kind.evaluate (A : Arith) (atomic : Bool) (policy : Policy) (req : RequestContext)
    (key : String) : Kind → Evaluation Answer
  | .fixedWindow => FixedWindow.evaluate A policy req key
  | .tokenBucket => TokenBucket.evaluate A policy req key
  | .slidingCounter => SlidingCounter.evaluate A policy req key
  | .concurrency => Concurrency.evaluate A policy key
  | .quota => Quota.evaluate A policy req key
  | .leakyBucket => LeakyBucket.evaluate A policy req key
  | .slidingLog => SlidingLog.evaluate A atomic policy req key

end Rlaas.Algorithm
