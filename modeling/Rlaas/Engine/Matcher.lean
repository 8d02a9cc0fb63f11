import Rlaas.Model.Types
import Rlaas.Go.Strings
import Mathlib.Data.List.Sort

/-! Package `matcher`: which policies apply to a request and which one wins. -/

set_option autoImplicit false

namespace Rlaas.Engine

open Go Model

def matchString (scope val : String) : Bool := scope == "" || scope == val

def matchesScope (req : RequestContext) (s : PolicyScope) : Bool :=
  matchString s.orgID req.orgID &&
  matchString s.tenantID req.tenantID &&
  matchString s.application req.application &&
  matchString s.service req.service &&
  matchString s.environment req.environment &&
  matchString s.signalType req.signalType &&
  matchString s.operation req.operation &&
  matchString s.endpoint req.endpoint &&
  matchString s.method req.method &&
  matchString s.userID req.userID &&
  matchString s.apiKey req.apiKey &&
  matchString s.clientID req.clientID &&
  matchString s.sourceIP req.sourceIP &&
  matchString s.region req.region &&
  matchString s.resource req.resource &&
  matchString s.severity req.severity &&
  matchString s.spanName req.spanName &&
  matchString s.topic req.topic &&
  matchString s.consumerGroup req.consumerGroup &&
  matchString s.jobType req.jobType &&
  s.tags.entries.all fun entry => req.tags.get entry.1 == entry.2

def resolveExprField (req : RequestContext) (field : List Char) : String :=
  if field = "org_id".toList then req.orgID
  else if field = "tenant_id".toList then req.tenantID
  else if field = "application".toList then req.application
  else if field = "service".toList then req.service
  else if field = "environment".toList then req.environment
  else if field = "signal_type".toList then req.signalType
  else if field = "operation".toList then req.operation
  else if field = "endpoint".toList then req.endpoint
  else if field = "method".toList then req.method
  else if field = "user_id".toList then req.userID
  else if field = "api_key".toList then req.apiKey
  else if field = "client_id".toList then req.clientID
  else if field = "source_ip".toList then req.sourceIP
  else if field = "region".toList then req.region
  else if field = "resource".toList then req.resource
  else if field = "severity".toList then req.severity
  else if field = "span_name".toList then req.spanName
  else if field = "topic".toList then req.topic
  else if field = "consumer_group".toList then req.consumerGroup
  else if field = "job_type".toList then req.jobType
  else if "tag.".toList.isPrefixOf field then req.tags.get (String.ofList (field.drop 4))
  else ""

def quotes (c : Char) : Bool := c == '"' || c == '\''

/-- One clause: `none` when it has neither operator, which is an error. -/
def evaluateClause (req : RequestContext) (clause : List Char) : Option Bool :=
  let value (right : List Char) := String.ofList (Strings.trimFunc quotes (Strings.trimSpace right))
  match Strings.splitOnce "==".toList clause with
  | some (left, right) =>
      some (resolveExprField req (Strings.trimSpace left) == value right)
  | none =>
      match Strings.splitOnce "!=".toList clause with
      | some (left, right) =>
          some (resolveExprField req (Strings.trimSpace left) != value right)
      | none => none

def evaluateClauses (req : RequestContext) : List (List Char) → Except String Bool
  | [] => .ok true
  | raw :: rest =>
      let clause := Strings.trimSpace raw
      if clause.isEmpty then evaluateClauses req rest
      else
        match evaluateClause req clause with
        | none => .error ("invalid clause: " ++ String.ofList clause)
        | some false => .ok false
        | some true => evaluateClauses req rest

def evaluateExpression (req : RequestContext) (expr : List Char) : Except String Bool :=
  evaluateClauses req (Strings.split "&&".toList expr)

def matchesPolicy (req : RequestContext) (p : Policy) : Bool :=
  if !matchesScope req p.scope then false
  else
    let expr := Strings.trimSpace (p.metadata.get "match_expr").toList
    if expr.isEmpty then true
    else
      match evaluateExpression req expr with
      | .ok holds => holds
      | .error _ => false

/-- `Match`. -/
def matchPolicies (req : RequestContext) (policies : List Policy) : List Policy :=
  policies.filter (matchesPolicy req)

def specificityScore (s : PolicyScope) : Int :=
  let weights := [s.userID, s.apiKey, s.clientID, s.endpoint, s.method, s.operation, s.service,
    s.application, s.tenantID, s.orgID, s.signalType, s.environment, s.sourceIP, s.region,
    s.resource, s.severity, s.spanName, s.topic, s.consumerGroup, s.jobType]
  10 * (weights.filter fun field => field != "").length + s.tags.size

/-- The order `SelectWinner` sorts by: `p` comes before `q`. -/
def before (p q : Policy) : Bool :=
  if specificityScore p.scope ≠ specificityScore q.scope then
    decide (specificityScore p.scope > specificityScore q.scope)
  else if p.priority ≠ q.priority then decide (p.priority > q.priority)
  else if p.policyID ≠ q.policyID then decide (p.policyID > q.policyID)
  else false

def ranked (policies : List Policy) : List Policy :=
  policies.insertionSort fun p q => before q p = false

def selectWinner (policies : List Policy) : Except String Policy :=
  match ranked policies with
  | [] => .error "no matching policy"
  | winner :: _ => .ok winner

end Rlaas.Engine
