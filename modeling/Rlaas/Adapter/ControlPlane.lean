import Rlaas.Lib.Pool
import Rlaas.Store.FilePolicy

/-! The write handlers of the control plane, as the calls they make to the policy
store and to their hooks. A request is what is left of it after routing: the
policy identifier of the path and the decoded body, if it decodes. -/

set_option autoImplicit false

namespace Rlaas.Adapter.ControlPlane

open Go Model Store Effect

inductive PlaneOp where
  | getPolicyByID (policyID : String)
  | upsertPolicy (p : Policy)
  /-- `notifier.Publish` on `policy.changed`; its error is ignored. -/
  | publish (policyID action : String)
  | record (event policyID : String)

@[reducible] def PlaneRes : PlaneOp → Type
  | .getPolicyByID _ => Except String Policy
  | .upsertPolicy _ => Except String Unit
  | .publish .. => Unit
  | .record .. => Unit

/-- Which hooks of `policiesHandlerConfig` are set. -/
structure HandlerConfig where
  notifier : Bool := true
  analytics : Bool := true

inductive Reply where
  | error (text : String) (status : Nat)
  | policy (p : Policy)

abbrev Handler := Program PlaneOp PlaneRes Reply

variable (cfg : HandlerConfig)

def notify (policyID action event : String) (reply : Reply) : Handler :=
  let recorded : Handler :=
    if cfg.analytics then .call (.record event policyID) fun _ => .done reply else .done reply
  if cfg.notifier then .call (.publish policyID action) fun _ => recorded else recorded

/-- The store write both handlers end with. -/
def store (p : Policy) (action event : String) : Handler :=
  .call (.upsertPolicy p) fun result =>
    match result with
    | .error _ => .done (.error "policy store error" 500)
    | .ok _ => notify cfg p.policyID action event (.policy p)

/-- `PUT /rlaas/v1/policies/{id}`. -/
def update (id : String) (body : Option Policy) : Handler :=
  if id = "" then .done (.error "missing policy id" 400)
  else
    match body with
    | none => .done (.error "invalid request" 400)
    | some p => store cfg { p with policyID := id } "update" "policy_update"

/-- `POST /rlaas/v1/policies/{id}/rollout`. -/
def rollout (id : String) (body : Option Int) : Handler :=
  if id = "" then .done (.error "missing policy id" 400)
  else
    match body with
    | none => .done (.error "invalid request" 400)
    | some percent =>
        if percent < 0 ∨ percent > 100 then .done (.error "rollout_percent must be 0..100" 400)
        else
          .call (.getPolicyByID id) fun found =>
            match found with
            | .error _ => .done (.error "policy not found" 404)
            | .ok p =>
                store cfg { p with rolloutPercent := percent } "rollout_update"
                  "policy_rollout_update"

inductive Request where
  | put (body : Option Policy)
  | rollout (body : Option Int)
  deriving DecidableEq

def Request.handler (id : String) : Request → Handler
  | .put body => ControlPlane.update cfg id body
  | .rollout body => ControlPlane.rollout cfg id body

/-- The calls against a file store that does not fail. -/
def perform (stamps : Stamps) : (op : PlaneOp) → PolicyFile → PlaneRes op × PolicyFile
  | .getPolicyByID policyID, file => (file.getPolicyByID {} policyID, file)
  | .upsertPolicy p, file => file.upsertPolicy {} stamps p
  | .publish .., file => ((), file)
  | .record .., file => ((), file)

/-- Whole requests one after another. -/
def oneByOne (id : String) (stamps : Stamps) (requests : List Request) (file : PolicyFile) :
    PolicyFile :=
  requests.foldl (fun file request =>
    ((request.handler cfg id).exec perform (fun _ => stamps) file).2) file

/-- Requests in progress at the same time. -/
def interleaved (id : String) (requests : List Request) (file : PolicyFile)
    (schedule : List (Nat × Stamps)) : Pool PlaneOp PlaneRes Reply PolicyFile Stamps :=
  (Pool.start (requests.map (Request.handler cfg id)) file).run perform schedule

end Rlaas.Adapter.ControlPlane
