import Rlaas.Adapter.Policies
import Rlaas.Lib.Monitor

/-! What the policies handler announces: a request that writes a policy announces it next, and
once. -/

set_option autoImplicit false

namespace Rlaas.Adapter.ControlPlane

open Go Model Store Effect

def PoliciesOp.mutates : PoliciesOp → Bool
  | .route (.plane (.upsertPolicy _)) => true
  | .route (.deletePolicy _) => true
  | _ => false

/-- The identifier and the action of an announcement. -/
def PoliciesOp.announced? : PoliciesOp → Option (String × String)
  | .route (.plane (.publish policyID action)) => some (policyID, action)
  | _ => none

/-- The policy a successful call has written. -/
def written? : (op : PoliciesOp) → PoliciesRes op → Option String
  | .route (.plane (.upsertPolicy p)), .ok _ => some p.policyID
  | .route (.deletePolicy policyID), .ok _ => some policyID
  | _, _ => none

theorem written?_eq_none {op : PoliciesOp} (reads : op.mutates = false) (answer : PoliciesRes op) :
    written? op answer = none := by
  unfold written?
  split
  · cases reads
  · cases reads
  · rfl

/-- What a request still has to announce. -/
inductive Errand where
  | fresh
  | owes (policyID : String)
  | announced

namespace Errand

def guard : Errand → PoliciesOp → Prop
  | .fresh, op => op.announced? = none
  | .owes policyID, op => ∃ action, op = .route (.plane (.publish policyID action))
  | .announced, op => op.announced? = none ∧ op.mutates = false

def advance : Errand → (op : PoliciesOp) → PoliciesRes op → Errand
  | .fresh, op, answer =>
      match written? op answer with
      | some policyID => .owes policyID
      | none => .fresh
  | .owes _, _, _ => .announced
  | .announced, _, _ => .announced

def settled : Errand → Prop
  | .owes _ => False
  | _ => True

/-- The observer of a request. -/
def watch : Monitor PoliciesOp PoliciesRes Errand Answer where
  expects _ _ _ := True
  guard := Errand.guard
  advance := Errand.advance
  accept stage _ := stage.settled

/-- The observer of the routes, which are part of requests. -/
def watchRoute : Monitor RouteOp RouteRes Errand Response :=
  watch.within PoliciesOp.route (fun _ answer => answer) fun stage _ => stage.settled

def watchPlane : Monitor PlaneOp PlaneRes Errand Reply :=
  watchRoute.within RouteOp.plane (fun _ answer => answer) fun stage _ => stage.settled

end Errand

section Announcing

variable {cfg : HandlerConfig}

theorem route_announces {handler : Handler} (accepted : Errand.watchPlane.Accepts .fresh handler) :
    Errand.watchRoute.Accepts .fresh (route handler) := by
  refine Monitor.Accepts.embedded accepted (fun _ _ => rfl) fun stage reply settled => ?_
  cases reply with
  | error text status => exact settled
  | policy p => exact settled

theorem respond_announces {steps : Route} (accepted : Errand.watchRoute.Accepts .fresh steps) :
    Errand.watch.Accepts .fresh (respond steps) :=
  Monitor.Accepts.embedded accepted (fun _ _ => rfl) fun _ _ settled => settled

theorem notify_announces (notifier : cfg.notifier = true) (policyID action event : String)
    (reply : Reply) :
    Errand.watchPlane.Accepts (.owes policyID) (notify cfg policyID action event reply) := by
  unfold notify
  rw [if_pos notifier]
  refine ⟨⟨action, rfl⟩, fun _ _ => ?_⟩
  split_ifs
  · exact ⟨⟨rfl, rfl⟩, fun _ _ => trivial⟩
  · trivial

theorem store_announces (notifier : cfg.notifier = true) (p : Policy) (action event : String) :
    Errand.watchPlane.Accepts .fresh (store cfg p action event) := by
  refine ⟨rfl, fun result _ => ?_⟩
  cases result with
  | error message => trivial
  | ok _ => exact notify_announces notifier p.policyID action event _

theorem publishing_announces (notifier : cfg.notifier = true) (policyID action : String)
    {next : Route} (after : Errand.watchRoute.Accepts .announced next) :
    Errand.watchRoute.Accepts (.owes policyID) (publishing cfg policyID action next) := by
  unfold publishing
  rw [if_pos notifier]
  exact ⟨⟨action, rfl⟩, fun _ _ => after⟩

theorem record_announces {op : RouteOp} (quiet : Errand.announced.guard (.route op))
    (response : Response) :
    Errand.watchRoute.Accepts .announced
      (if cfg.analytics then .call op fun _ => .done response else .done response) := by
  split_ifs
  · exact ⟨quiet, fun _ _ => trivial⟩
  · trivial

theorem update_announces (notifier : cfg.notifier = true) (id : String) (body : Option Policy) :
    Errand.watchPlane.Accepts .fresh (update cfg id body) := by
  unfold update
  split_ifs
  · trivial
  · cases body with
    | none => trivial
    | some p => exact store_announces notifier _ _ _

theorem rollout_announces (notifier : cfg.notifier = true) (id : String) (body : Option Int) :
    Errand.watchPlane.Accepts .fresh (rollout cfg id body) := by
  unfold rollout
  split_ifs
  · trivial
  · cases body with
    | none => trivial
    | some percent =>
        dsimp only
        split_ifs
        · trivial
        · refine ⟨rfl, fun found _ => ?_⟩
          cases found with
          | error message => trivial
          | ok p => exact store_announces notifier _ _ _

theorem upsert_announces {p : Policy} {next : Except String Unit → Route}
    (failed : ∀ message, Errand.watchRoute.Accepts .fresh (next (.error message)))
    (written : Errand.watchRoute.Accepts (.owes p.policyID) (next (.ok ()))) :
    Errand.watchRoute.Accepts .fresh (.call (.plane (.upsertPolicy p)) next) := by
  refine ⟨rfl, fun result _ => ?_⟩
  cases result with
  | error message => exact failed message
  | ok _ => exact written

theorem create_announces (notifier : cfg.notifier = true) (body : Option Policy) :
    Errand.watchRoute.Accepts .fresh (create cfg body) := by
  cases body with
  | none => trivial
  | some p =>
      unfold create
      by_cases unnamed : p.policyID = ""
      · simp only [if_pos unnamed]
        exact ⟨rfl, fun _ _ => upsert_announces (fun _ => trivial)
          (publishing_announces notifier _ "create" (record_announces ⟨rfl, rfl⟩ _))⟩
      · simp only [if_neg unnamed]
        exact upsert_announces (fun _ => trivial)
          (publishing_announces notifier _ "create" (record_announces ⟨rfl, rfl⟩ _))

theorem delete_announces (notifier : cfg.notifier = true) (id : String) :
    Errand.watchRoute.Accepts .fresh (delete cfg id) := by
  unfold delete
  by_cases missing : id = ""
  · rw [if_pos missing]
    trivial
  · rw [if_neg missing]
    refine ⟨rfl, fun result _ => ?_⟩
    cases result with
    | error message => trivial
    | ok _ => exact publishing_announces notifier id "delete" (record_announces ⟨rfl, rfl⟩ _)

theorem restore_announces (notifier : cfg.notifier = true) (id : String)
    (selected : PolicyVersion) :
    Errand.watchRoute.Accepts .fresh (restore cfg id selected) :=
  upsert_announces (fun _ => trivial)
    (publishing_announces notifier id "rollback" (record_announces ⟨rfl, rfl⟩ _))

theorem rollback_announces (notifier : cfg.notifier = true) (history : Bool) (id : String)
    (body : Option Int) : Errand.watchRoute.Accepts .fresh (rollback history cfg id body) := by
  unfold rollback
  split_ifs
  · trivial
  · trivial
  · cases body with
    | none => trivial
    | some version =>
        refine ⟨rfl, fun listed _ => ?_⟩
        cases listed with
        | error message => trivial
        | ok versions =>
            dsimp only
            split_ifs
            · trivial
            · cases selectVersionForRollback versions version with
              | none => trivial
              | some selected => exact restore_announces notifier id selected

theorem recording_announces (event : String) (answer : Answer) :
    Errand.watch.Accepts .fresh (recording cfg event answer) := by
  unfold recording
  split_ifs
  · exact ⟨rfl, fun _ _ => trivial⟩
  · trivial

theorem list_announces : Errand.watch.Accepts .fresh (list cfg) := by
  refine ⟨rfl, fun listed _ => ?_⟩
  cases listed with
  | error message => trivial
  | ok list => exact recording_announces "policy_list" _

theorem validate_announces (body : Option Policy) :
    Errand.watch.Accepts .fresh (validate cfg body) := by
  cases body with
  | none => trivial
  | some p =>
      unfold validate
      dsimp only
      split
      · trivial
      · exact recording_announces "policy_validate" _

theorem get_announces (id : String) : Errand.watch.Accepts .fresh (get id) := by
  unfold get
  split_ifs
  · trivial
  · refine ⟨rfl, fun found _ => ?_⟩
    cases found with
    | error message => trivial
    | ok p => trivial

theorem audit_announces (history : Bool) (policyID : String) :
    Errand.watch.Accepts .fresh (audit history policyID) := by
  unfold audit
  split_ifs
  · trivial
  · trivial
  · refine ⟨rfl, fun listed _ => ?_⟩
    cases listed with
    | error message => trivial
    | ok entries => trivial

theorem versions_announces (history : Bool) (policyID : String) :
    Errand.watch.Accepts .fresh (versions history policyID) := by
  unfold versions
  split_ifs
  · trivial
  · trivial
  · refine ⟨rfl, fun listed _ => ?_⟩
    cases listed with
    | error message => trivial
    | ok versions => trivial

/-- A request that writes announces what it has written, next and once; no other request
announces anything. -/
theorem policiesHandler_announces (notifier : cfg.notifier = true) (history : Bool)
    (r : PoliciesRequest) : Errand.watch.Accepts .fresh (policiesHandler history cfg r) := by
  unfold policiesHandler
  -- The identifiers are only handed on, and the proof is not to compute them.
  generalize r.id = id, r.idBefore "/audit" = audited, r.idBefore "/versions" = versioned,
    r.idBefore "/rollback" = restored, r.idBefore "/rollout" = rolled
  split_ifs
  · exact list_announces
  · exact audit_announces history _
  · exact versions_announces history _
  · exact get_announces _
  · exact respond_announces (create_announces notifier _)
  · exact validate_announces _
  · exact respond_announces (rollback_announces notifier history _ _)
  · exact respond_announces (route_announces (rollout_announces notifier _ _))
  · exact respond_announces (route_announces (update_announces notifier _ _))
  · exact respond_announces (delete_announces notifier _)
  · trivial

end Announcing

end Rlaas.Adapter.ControlPlane
