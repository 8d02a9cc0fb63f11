import Rlaas.Adapter.Routes
import Rlaas.Go.HTTP
import Rlaas.Go.Strings

/-! `PoliciesHandlerWithConfig`: the dispatch of a request to the routes that write and to
those that read. -/

set_option autoImplicit false

namespace Rlaas.Adapter.ControlPlane

open Go Model Store Effect

inductive PoliciesOp where
  | route (op : RouteOp)
  | listPolicies
  | listPolicyAudit (policyID : String)
  /-- `analytics.Record` with `status: ok` as its only tag. -/
  | recordOK (event : String)

@[reducible] def PoliciesRes : PoliciesOp → Type
  | .route op => RouteRes op
  | .listPolicies => Except String (List Policy)
  | .listPolicyAudit _ => Except String (List PolicyAuditEntry)
  | .recordOK _ => Unit

inductive Answer where
  | response (response : Response)
  | policies (list : List Policy)
  | audits (entries : List PolicyAuditEntry)
  | versions (versions : List PolicyVersion)
  | valid
  | notFound

abbrev PoliciesSteps := Program PoliciesOp PoliciesRes Answer

def respond (steps : Route) : PoliciesSteps :=
  (steps.mapOp PoliciesOp.route fun _ answer => answer).bind fun response =>
    .done (.response response)

def refuse (text : String) (status : Nat) : PoliciesSteps := .done (.response (.error text status))

def recording (cfg : HandlerConfig) (event : String) (answer : Answer) : PoliciesSteps :=
  if cfg.analytics then .call (.recordOK event) fun _ => .done answer else .done answer

/-- `GET /rlaas/v1/policies`. -/
def list (cfg : HandlerConfig) : PoliciesSteps :=
  .call .listPolicies fun listed =>
    match listed with
    | .error _ => refuse "policy store error" 500
    | .ok list => recording cfg "policy_list" (.policies list)

/-- `GET /rlaas/v1/policies/{id}/audit`, over a store that keeps histories or not. -/
def audit (history : Bool) (policyID : String) : PoliciesSteps :=
  if !history then refuse "policy history not supported" 501
  else if policyID = "" then refuse "missing policy id" 400
  else
    .call (.listPolicyAudit policyID) fun listed =>
      match listed with
      | .error _ => refuse "policy store error" 500
      | .ok entries => .done (.audits entries)

/-- `GET /rlaas/v1/policies/{id}/versions`. -/
def versions (history : Bool) (policyID : String) : PoliciesSteps :=
  if !history then refuse "policy versions not supported" 501
  else if policyID = "" then refuse "missing policy id" 400
  else
    .call (.route (.listPolicyVersions policyID)) fun listed =>
      match listed with
      | .error _ => refuse "policy store error" 500
      | .ok versions => .done (.versions versions)

/-- `GET /rlaas/v1/policies/{id}`. -/
def get (id : String) : PoliciesSteps :=
  if id = "" then refuse "missing policy id" 400
  else
    .call (.route (.plane (.getPolicyByID id))) fun found =>
      match found with
      | .error _ => refuse "policy not found" 404
      | .ok p => .done (.response (.policy p))

def validatePolicy (p : Policy) : Except String Unit :=
  if p.name = "" then .error "policy name is required"
  else if p.algorithm.type = .other "" then .error "algorithm type is required"
  else if p.algorithm.limit < 0 then .error "algorithm limit must be >= 0"
  else if p.action = .other "" then .error "action is required"
  else if p.rolloutPercent < 0 ∨ p.rolloutPercent > 100 then
    .error "rollout_percent must be 0..100"
  else .ok ()

/-- `POST /rlaas/v1/policies/validate`. -/
def validate (cfg : HandlerConfig) (body : Option Policy) : PoliciesSteps :=
  match body with
  | none => refuse "invalid request" 400
  | some p =>
      match validatePolicy p with
      | .error text => refuse text 400
      | .ok () => recording cfg "policy_validate" .valid

/-- What decoding a body as each of the types of the routes gives. -/
structure Body where
  policy : Option Policy := none
  version : Option Int := none
  rolloutPercent : Option Int := none

structure PoliciesRequest extends HTTPRequest where
  body : Body := {}

namespace PoliciesRequest

/-- The path is that of a policy, and perhaps of something about it. -/
def below (r : PoliciesRequest) : Bool := "/rlaas/v1/policies/".toList.isPrefixOf r.path.toList

def endsIn (r : PoliciesRequest) (last : String) : Bool := last.toList.isSuffixOf r.path.toList

def rest (r : PoliciesRequest) : List Char :=
  Strings.trimPrefix r.path.toList "/rlaas/v1/policies/".toList

def id (r : PoliciesRequest) : String := .ofList r.rest

def idBefore (r : PoliciesRequest) (last : String) : String :=
  .ofList (Strings.trimSuffix r.rest last.toList)

end PoliciesRequest

/-- The cases of the `switch`, in its order. -/
def policiesHandler (history : Bool) (cfg : HandlerConfig) (r : PoliciesRequest) : PoliciesSteps :=
  if r.method = "GET" ∧ r.path = "/rlaas/v1/policies" then list cfg
  else if r.method = "GET" ∧ r.below ∧ r.endsIn "/audit" then audit history (r.idBefore "/audit")
  else if r.method = "GET" ∧ r.below ∧ r.endsIn "/versions" then
    versions history (r.idBefore "/versions")
  else if r.method = "GET" ∧ r.below then get r.id
  else if r.method = "POST" ∧ r.path = "/rlaas/v1/policies" then
    respond (create cfg r.body.policy)
  else if r.method = "POST" ∧ r.path = "/rlaas/v1/policies/validate" then
    validate cfg r.body.policy
  else if r.method = "POST" ∧ r.below ∧ r.endsIn "/rollback" then
    respond (rollback history cfg (r.idBefore "/rollback") r.body.version)
  else if r.method = "POST" ∧ r.below ∧ r.endsIn "/rollout" then
    respond (route (rollout cfg (r.idBefore "/rollout") r.body.rolloutPercent))
  else if r.method = "PUT" ∧ r.below then respond (route (update cfg r.id r.body.policy))
  else if r.method = "DELETE" ∧ r.below then respond (delete cfg r.id)
  else .done .notFound

/-- The calls against a file store. -/
def performPolicies (setting : Setting) :
    (op : PoliciesOp) → PolicyFile → PoliciesRes op × PolicyFile
  | .route op, file => performRoute setting op file
  | .listPolicies, file => (file.listPolicies setting.faults, file)
  | .listPolicyAudit policyID, file => (file.listPolicyAudit setting.faults policyID, file)
  | .recordOK _, file => ((), file)

end Rlaas.Adapter.ControlPlane
