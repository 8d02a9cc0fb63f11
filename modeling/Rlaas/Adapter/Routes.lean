import Rlaas.Adapter.ControlPlane

/-! The routes of the control plane that write: those of `ControlPlane` and the creation,
the removal and the rollback of a policy. -/

set_option autoImplicit false

namespace Rlaas.Adapter.ControlPlane

open Go Model Store Effect

inductive RouteOp where
  | plane (op : PlaneOp)
  | now
  | deletePolicy (policyID : String)
  | listPolicyVersions (policyID : String)
  /-- `analytics.Record` with the version as a further tag. -/
  | recordVersion (event policyID version : String)

@[reducible] def RouteRes : RouteOp → Type
  | .plane op => PlaneRes op
  | .now => Time
  | .deletePolicy _ => Except String Unit
  | .listPolicyVersions _ => Except String (List PolicyVersion)
  | .recordVersion .. => Unit

inductive Response where
  | error (text : String) (status : Nat)
  | policy (p : Policy)
  | created (p : Policy)
  | noContent
  deriving DecidableEq

abbrev Route := Program RouteOp RouteRes Response

/-- A handler of `ControlPlane` as a route. -/
def route (handler : Handler) : Route :=
  (handler.mapOp RouteOp.plane fun _ answer => answer).bind fun reply =>
    match reply with
    | .error text status => .done (.error text status)
    | .policy p => .done (.policy p)

def publishing (cfg : HandlerConfig) (policyID action : String) (next : Route) : Route :=
  if cfg.notifier then .call (.plane (.publish policyID action)) fun _ => next else next

/-- `POST /rlaas/v1/policies`. -/
def create (cfg : HandlerConfig) (body : Option Policy) : Route :=
  match body with
  | none => .done (.error "invalid request" 400)
  | some p =>
      let write (p : Policy) : Route :=
        .call (.plane (.upsertPolicy p)) fun result =>
          match result with
          | .error _ => .done (.error "policy store error" 500)
          | .ok _ =>
              publishing cfg p.policyID "create"
                (if cfg.analytics then
                  .call (.plane (.record "policy_create" p.policyID)) fun _ => .done (.created p)
                else .done (.created p))
      if p.policyID = "" then
        .call .now fun now =>
          write { p with policyID := "policy-" ++ toString (now.unixNano .machine) }
      else write p

/-- `DELETE /rlaas/v1/policies/{id}`. -/
def delete (cfg : HandlerConfig) (id : String) : Route :=
  if id = "" then .done (.error "missing policy id" 400)
  else
    .call (.deletePolicy id) fun result =>
      match result with
      | .error _ => .done (.error "policy store error" 500)
      | .ok _ =>
          publishing cfg id "delete"
            (if cfg.analytics then
              .call (.plane (.record "policy_delete" id)) fun _ => .done .noContent
            else .done .noContent)

def selectVersionForRollback (versions : List PolicyVersion) (requestedVersion : Int) :
    Option PolicyVersion :=
  if versions.isEmpty then none
  else if requestedVersion > 0 then versions.find? fun v => v.version = requestedVersion
  else if versions.length < 2 then none
  else versions[versions.length - 2]?

/-- The rollback once the version is selected. -/
def restore (cfg : HandlerConfig) (id : String) (selected : PolicyVersion) : Route :=
  let restored := { selected.snapshot with policyID := id }
  .call (.plane (.upsertPolicy restored)) fun result =>
    match result with
    | .error _ => .done (.error "policy store error" 500)
    | .ok _ =>
        publishing cfg id "rollback"
          (if cfg.analytics then
            .call (.recordVersion "policy_rollback" id (toString selected.version)) fun _ =>
              .done (.policy restored)
          else .done (.policy restored))

/-- `POST /rlaas/v1/policies/{id}/rollback`, over a store that keeps histories or not. -/
def rollback (history : Bool) (cfg : HandlerConfig) (id : String) (body : Option Int) : Route :=
  if !history then .done (.error "policy rollback not supported" 501)
  else if id = "" then .done (.error "missing policy id" 400)
  else
    match body with
    | none => .done (.error "invalid request" 400)
    | some version =>
        .call (.listPolicyVersions id) fun listed =>
          match listed with
          | .error _ => .done (.error "policy store error" 500)
          | .ok versions =>
              if versions.isEmpty then .done (.error "policy version not found" 404)
              else
                match selectVersionForRollback versions version with
                | none => .done (.error "policy version not found" 404)
                | some selected => restore cfg id selected

/-- A request that writes, with the identifier of its path. -/
inductive WriteRequest where
  | create (body : Option Policy)
  | update (id : String) (body : Option Policy)
  | rollout (id : String) (body : Option Int)
  | rollback (id : String) (body : Option Int)
  | delete (id : String)
  deriving DecidableEq

def WriteRequest.handler (cfg : HandlerConfig) : WriteRequest → Route
  | .create body => ControlPlane.create cfg body
  | .update id body => route (ControlPlane.update cfg id body)
  | .rollout id body => route (ControlPlane.rollout cfg id body)
  | .rollback id body => ControlPlane.rollback true cfg id body
  | .delete id => ControlPlane.delete cfg id

/-- The errors and the readings of the clock that one call of the store meets. -/
structure Setting where
  faults : FileFaults := {}
  stamps : Stamps

/-- The calls against a file store. -/
def performRoute (setting : Setting) : (op : RouteOp) → PolicyFile → RouteRes op × PolicyFile
  | .plane (.getPolicyByID policyID), file => (file.getPolicyByID setting.faults policyID, file)
  | .plane (.upsertPolicy p), file => file.upsertPolicy setting.faults setting.stamps p
  | .plane (.publish ..), file => ((), file)
  | .plane (.record ..), file => ((), file)
  | .now, file => (setting.stamps.createdAt, file)
  | .deletePolicy policyID, file => file.deletePolicy setting.faults setting.stamps policyID
  | .listPolicyVersions policyID, file => (file.listPolicyVersions setting.faults policyID, file)
  | .recordVersion .., file => ((), file)

/-- Whole requests one after another, each with the settings of its calls. -/
def served (cfg : HandlerConfig) (requests : List (WriteRequest × (Nat → Setting)))
    (file : PolicyFile) : PolicyFile :=
  requests.foldl (fun file request =>
    ((request.1.handler cfg).exec performRoute request.2 file).2) file

end Rlaas.Adapter.ControlPlane
