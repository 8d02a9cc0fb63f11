import Rlaas.Engine.Evaluator

/-! `DefaultEngine.StartConcurrencyLease`, the acquire path, which does not use
the concurrency evaluator but works on the lease counter itself. -/

set_option autoImplicit false

namespace Rlaas.Engine

open Go Model Store Algorithm Key Effect

/-- The decision and the release callback; the returned error is always nil. -/
structure LeaseStart where
  decision : Decision
  release : Program EngineOp EngineRes (Except String Unit)

def withoutLease (decision : Decision) : LeaseStart where
  decision
  release := .done (.ok ())

def leaseLimit (cfg : AlgorithmConfig) : Int :=
  let limit := cfg.maxConcurrency
  let limit := if limit ≤ 0 then cfg.limit else limit
  if limit ≤ 0 then 1 else limit

def leaseDuration (A : Arith) (cfg : AlgorithmConfig) : Duration :=
  if cfg.leaseTTL > 0 then A.wrap (cfg.leaseTTL * second) else 2 * minute

def refusedLease (A : Arith) (policy : Policy) (keyStr : String) (limit current : Int) : Decision :=
  let d : Decision :=
    { allowed := false
      action := policy.action
      reason := "concurrency_limit_exceeded"
      matchedPolicyID := policy.policyID
      limitKey := keyStr
      remaining := max (A.wrap (limit - current)) 0
      retryAfter := 100 * millisecond }
  if policy.enforcementMode = .shadow then
    { d with shadowMode := true, allowed := true, action := .shadowOnly, reason := "shadow_mode" }
  else d

def grantedLease (A : Arith) (policy : Policy) (keyStr : String) (limit current : Int) : Decision :=
  let d : Decision :=
    { allowed := true
      action := .allow
      reason := "concurrency_lease_acquired"
      matchedPolicyID := policy.policyID
      limitKey := keyStr
      remaining := max (A.wrap (limit - current)) 0 }
  if policy.enforcementMode = .shadow then { d with shadowMode := true, action := .shadowOnly }
  else d

def concludeLease (A : Arith) (policy : Policy) (keyStr : String) :
    Except String (Bool × Int) → LeaseStart
  | .error message => withoutLease (handleFailure policy keyStr message)
  | .ok (false, current) =>
      withoutLease (refusedLease A policy keyStr (leaseLimit policy.algorithm) current)
  | .ok (true, current) =>
      { decision := grantedLease A policy keyStr (leaseLimit policy.algorithm) current
        release := .call (.env (.store (.releaseLease (keyStr ++ ":concurrency")))) .done }

def leaseStartPicked (A : Arith) (engine : DefaultEngine) (req : RequestContext)
    (picked : Except String (Option (Policy × String))) : Program EngineOp EngineRes LeaseStart :=
  match picked with
  | .error _ => .done (withoutLease (allowDecision "policy resolution failed"))
  | .ok none => .done (withoutLease (allowDecision "no policy matched"))
  | .ok (some (policy, keyStr)) =>
      if policy.algorithm.type ≠ .concurrency then
        (engine.evaluate req).bind fun decision => .done (withoutLease decision)
      else
        .call (.env (.store (.acquireLease (keyStr ++ ":concurrency") (leaseLimit policy.algorithm)
            (leaseDuration A policy.algorithm)))) fun answer =>
          .done (concludeLease A policy keyStr answer)

def DefaultEngine.startConcurrencyLease (A : Arith) (engine : DefaultEngine)
    (req : RequestContext) : Program EngineOp EngineRes LeaseStart :=
  ((pickPolicy engine.keyBuilder req).mapOp EngineOp.policy fun _ answer => answer).bind
    (leaseStartPicked A engine req)

end Rlaas.Engine
