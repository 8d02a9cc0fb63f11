import Rlaas.Engine.Matcher
import Rlaas.Key.Builder
import Rlaas.Store.Memory
import Rlaas.Store.FilePolicy
import Rlaas.Algorithm.Evaluators

/-! Package `evaluator`: policy resolution and the decision of the engine. -/

set_option autoImplicit false

namespace Rlaas.Engine

open Go Model Store Algorithm Key Effect

inductive PolicyOp where
  | now
  | cacheGet (ns : String)
  | loadPolicies (ns : String)
  | cacheSet (ns : String) (policies : List Policy)

@[reducible] def PolicyRes : PolicyOp → Type
  | .now => Time
  | .cacheGet _ => Option (List Policy)
  | .loadPolicies _ => Except String (List Policy)
  | .cacheSet .. => Unit

inductive EngineOp where
  | policy (op : PolicyOp)
  | env (op : EnvOp)

@[reducible] def EngineRes : EngineOp → Type
  | .policy op => PolicyRes op
  | .env op => EnvRes op

structure DefaultEngine where
  keyBuilder : DefaultBuilder
  algorithms : AlgorithmType → Option (Policy → RequestContext → String → Evaluation Answer)

def rolloutSeed (req : RequestContext) : String :=
  if req.requestID = "" then req.orgID ++ ":" ++ req.tenantID ++ ":" ++ req.userID
  else req.requestID

def isInRollout (policy : Policy) (req : RequestContext) : Bool :=
  if policy.rolloutPercent ≤ 0 then false
  else if policy.rolloutPercent ≥ 100 then true
  else
    let bucket := (fnv32a (policy.policyID ++ ":" ++ rolloutSeed req)).toNat % 100
    decide ((bucket : Int) < policy.rolloutPercent)

def isCandidate (now : Time) (req : RequestContext) (p : Policy) : Bool :=
  if !p.enabled then false
  else if p.validFromUnix > 0 && decide (now.unix < p.validFromUnix) then false
  else if p.validToUnix > 0 && decide (now.unix > p.validToUnix) then false
  else if p.rolloutPercent > 0 && decide (p.rolloutPercent < 100) && !isInRollout p req then false
  else true

/-- The part of `pickPolicy` after the list of policies is there. -/
def selectPolicy (builder : DefaultBuilder) (now : Time) (req : RequestContext)
    (policies : List Policy) : Except String (Option (Policy × String)) :=
  let matched := matchPolicies req (policies.filter (isCandidate now req))
  if matched.isEmpty then .ok none
  else
    match selectWinner matched with
    | .error message => .error message
    | .ok winner => .ok (some (winner, build builder winner req))

def namespaceOf (req : RequestContext) : String :=
  if req.tenantID = "" then req.orgID else req.tenantID

def pickPolicy (builder : DefaultBuilder) (req : RequestContext) :
    Program PolicyOp PolicyRes (Except String (Option (Policy × String))) :=
  .call .now fun now =>
    .call (.cacheGet (namespaceOf req)) fun hit =>
      match hit with
      | some policies => .done (selectPolicy builder now req policies)
      | none =>
          .call (.loadPolicies (namespaceOf req)) fun loaded =>
            match loaded with
            | .error message => .done (.error message)
            | .ok policies =>
                .call (.cacheSet (namespaceOf req) policies) fun _ =>
                  .done (selectPolicy builder now req policies)

def allowDecision (reason : String) : Decision := { allowed := true, action := .allow, reason }

def handleFailure (policy : Policy) (keyStr reason : String) : Decision :=
  if policy.failureMode = .failClosed then
    { allowed := false
      action := .deny
      reason := "fail_closed: " ++ reason
      matchedPolicyID := policy.policyID
      limitKey := keyStr }
  else
    { allowed := true
      action := .allow
      reason := "fail_open: " ++ reason
      matchedPolicyID := policy.policyID
      limitKey := keyStr }

def conclude (policy : Policy) (keyStr : String) : Answer → Decision
  | .error message => handleFailure policy keyStr message
  | .ok decision =>
      let decision := { decision with matchedPolicyID := policy.policyID, limitKey := keyStr }
      if policy.enforcementMode = .shadow then
        { decision with
          metadata := decision.metadata.insert "shadow_would_action" decision.action.name
          shadowMode := true
          allowed := true
          action := .shadowOnly
          reason := "shadow_mode" }
      else decision

def evaluatePicked (engine : DefaultEngine) (req : RequestContext)
    (picked : Except String (Option (Policy × String))) : Program EngineOp EngineRes Decision :=
  match picked with
  | .error message => .done (allowDecision ("policy resolution failed: " ++ message))
  | .ok none => .done (allowDecision "no policy matched")
  | .ok (some (policy, keyStr)) =>
      match engine.algorithms policy.algorithm.type with
      | none => .done (handleFailure policy keyStr "algorithm not configured")
      | some evaluate =>
          ((evaluate policy req keyStr).mapOp EngineOp.env fun _ answer => answer).bind fun answer =>
            .done (conclude policy keyStr answer)

/-- `DefaultEngine.Evaluate`; the error it returns is always nil. -/
def DefaultEngine.evaluate (engine : DefaultEngine) (req : RequestContext) :
    Program EngineOp EngineRes Decision :=
  ((pickPolicy engine.keyBuilder req).mapOp EngineOp.policy fun _ answer => answer).bind
    (evaluatePicked engine req)

def kindOf : AlgorithmType → Option Kind
  | .fixedWindow => some .fixedWindow
  | .tokenBucket => some .tokenBucket
  | .slidingWindowCnt => some .slidingCounter
  | .concurrency => some .concurrency
  | .quota => some .quota
  | .leakyBucket => some .leakyBucket
  | .slidingWindowLog => some .slidingLog
  | .other _ => none

/-- The engine `rlaas.New` builds over a store that offers
`CheckAndAddTimestamps` or not. -/
def standardEngine (A : Arith) (atomic : Bool) (builder : DefaultBuilder) : DefaultEngine where
  keyBuilder := builder
  algorithms type :=
    (kindOf type).map fun kind policy req key => kind.evaluate A atomic policy req key

end Rlaas.Engine
