import Rlaas.Go.HTTP
import Rlaas.Go.Strings
import Rlaas.Model.Types

/-! The enforcement points: what the HTTP middleware, the gRPC interceptor and
the batch processor do with the decision of the evaluator. -/

set_option autoImplicit false

namespace Rlaas.Adapter

open Go Model

/-- The result of `Evaluator.Evaluate`: a decision and an error, if any. -/
structure Evaluated where
  decision : Decision
  err : Option String := none

namespace Middleware

def sourceIP (r : HTTPRequest) : String :=
  let xff := r.header "X-Forwarded-For"
  if xff ≠ "" then
    String.ofList (Strings.trimSpace ((Strings.split [','] xff.toList).headD []))
  else r.remoteAddr

def requestContext (r : HTTPRequest) : RequestContext :=
  { requestID := r.header "X-Request-Id"
    orgID := r.header "X-Org-Id"
    tenantID := r.header "X-Tenant-Id"
    application := r.header "X-Application"
    service := r.header "X-Service"
    signalType := "http"
    operation := r.path
    endpoint := r.path
    method := r.method
    userID := r.header "X-User-Id"
    apiKey := r.header "X-Api-Key"
    clientID := r.header "X-Client-Id"
    sourceIP := sourceIP r
    tags := StringMap.empty.insert "host" r.host }

/-- `time.Until`, which saturates. -/
def untilTime (now : Time) (nanos : Int) : Duration :=
  max (-2 ^ 63) (min (nanos - now.nanos) (2 ^ 63 - 1))

def resetSeconds (now : Time) (d : Decision) : Int :=
  let delta := Duration.seconds .machine (untilTime now d.resetAt)
  convertInt64 (if delta.lt (.fin 0) then .fin 0 else delta)

/-- The headers of `setRateLimitHeaders`, in the order they are set. -/
def rateLimitHeaders (now : Time) (d : Decision) : List (String × String) :=
  [("X-RateLimit-Remaining", toString d.remaining)] ++
    (if d.matchedPolicyID ≠ "" then [("RateLimit-Policy", d.matchedPolicyID)] else []) ++
    [("RateLimit-Remaining", toString d.remaining)] ++
    (if d.resetAt ≠ zeroNanos then [("RateLimit-Reset", toString (resetSeconds now d))] else [])

def retrySeconds (d : Decision) : Int :=
  let seconds := convertInt64 (Duration.seconds .machine d.retryAfter)
  if seconds < 1 then 1 else seconds

/-- How the handler ends: `next` serves the request, `http.Error` is written, or
the client is gone before the delay is over. -/
inductive Outcome where
  | next (slept : Duration) (headers : List (String × String))
  | error (body : String) (status : Nat) (headers : List (String × String))
  | abandoned

def Outcome.passes : Outcome → Bool
  | .next .. => true
  | _ => false

def maxDelay : Duration := 30 * second

/-- `Middleware.Handler` after the evaluation; `cancelled` says that the request
context ends before a delay would. -/
def handler (cancelled : Bool) (now : Time) (evaluated : Evaluated) : Outcome :=
  match evaluated.err with
  | some _ => .error "rate limiter error" 500 []
  | none =>
      let decision := evaluated.decision
      let headers := rateLimitHeaders now decision
      let refusal := Outcome.error "too many requests" 429
        (headers ++ [("Retry-After", toString (retrySeconds decision))])
      match decision.action with
      | .deny => refusal
      | .drop => refusal
      | .dropLowPriority => refusal
      | .delay =>
          let delay := min decision.delayFor maxDelay
          if delay > 0 then
            if cancelled then .abandoned else .next delay headers
          else .next 0 headers
      | _ => .next 0 headers

end Middleware

namespace Interceptor

def requestContext (fullMethod : String) : RequestContext :=
  { signalType := "grpc", operation := fullMethod, endpoint := fullMethod, method := "UNARY" }

inductive Outcome where
  | handled
  | internal (message : String)
  | resourceExhausted (message : String)
  deriving DecidableEq

/-- `UnaryServerInterceptor` after the evaluation. -/
def unaryServerInterceptor (evaluated : Evaluated) : Outcome :=
  let decision := evaluated.decision
  if evaluated.err.isSome then .internal "rate limiter failed"
  else if !decision.allowed && (decision.action = .deny || decision.action = .drop ||
      decision.action = .dropLowPriority) then .resourceExhausted "rate limit exceeded"
  else .handled

end Interceptor

namespace Provider

inductive SignalKind where
  | log
  | span
  | metric
  | event
  | http
  | other (name : String)
  deriving DecidableEq

def SignalKind.name : SignalKind → String
  | .log => "log"
  | .span => "span"
  | .metric => "metric"
  | .event => "event"
  | .http => "http"
  | .other name => name

structure TelemetryRecord where
  signal : SignalKind
  orgID : String := ""
  service : String := ""
  operation : String := ""
  severity : String := ""
  environment : String := ""
  region : String := ""
  endpoint : String := ""
  method : String := ""
  tags : StringMap := .empty
  deriving DecidableEq

def TelemetryRecord.toRequestContext (r : TelemetryRecord) : RequestContext :=
  { orgID := r.orgID
    service := r.service
    signalType := r.signal.name
    operation := r.operation
    severity := r.severity
    environment := r.environment
    region := r.region
    endpoint := r.endpoint
    method := r.method
    tags := r.tags }

/-- `provider.Decision`. -/
structure RecordDecision where
  allowed : Bool
  action : ActionType
  reason : String
  record : TelemetryRecord
  raw : Decision

structure BatchProcessor where
  failOpen : Bool

/-- What a worker of `Process` stores for a record after its evaluation. -/
def BatchProcessor.result (bp : BatchProcessor) (record : TelemetryRecord)
    (evaluated : Evaluated) : RecordDecision :=
  let d := evaluated.decision
  match evaluated.err with
  | some message =>
      if bp.failOpen then
        { allowed := true, action := .allow, reason := "fail_open: " ++ message, record, raw := d }
      else
        { allowed := false, action := .deny, reason := "fail_closed: " ++ message, record, raw := d }
  | none => { allowed := d.allowed, action := d.action, reason := d.reason, record, raw := d }

end Provider

end Rlaas.Adapter
