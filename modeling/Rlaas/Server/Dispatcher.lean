import Rlaas.Adapter.PoliciesProperties
import Rlaas.Agent.Sync
import Rlaas.Lib.Workers

/-! The invalidations of a server and its agents: `startInvalidationDispatcher` and
`publishInvalidation` of the server between the policies handler and the agents. -/

set_option autoImplicit false

namespace Rlaas.Server

open Go Store Adapter.ControlPlane Agent Effect

/-- The event of a change on `policy.changed`. -/
structure PolicyEvent where
  policyID : String
  action : String
  deriving DecidableEq

section FanOut

/-- Where the event goes for a target. -/
def invalidateURL (target : String) : String :=
  .ofList (Strings.trimRight '/' target.toList) ++ "/rlaas/v1/agent/invalidate"

/-- What a worker of `publishInvalidation` sends for a target, if `http.NewRequest` takes the
URL. The answer to it is discarded. -/
def publishBatch (valid : String → Bool) (targets : List String) (event : PolicyEvent) :
    Batch targets.length (Option (String × PolicyEvent)) Unit Empty where
  request job :=
    let url := invalidateURL (targets.get job)
    if valid url then some (url, event) else none
  writes _ _ := []

/-- The requests made once every worker has returned. -/
def publishInvalidation (valid : String → Bool) (targets : List String) (event : PolicyEvent)
    (schedule : List (Nat × Unit)) : Option (List (String × PolicyEvent)) :=
  if targets = [] then some []
  else
    ((publishBatch valid targets event).outcome (fun sent _ => sent) ()
      (min targets.length 8) schedule).map fun (_, evaluations) =>
        evaluations.filterMap (·.request)

end FanOut

/-- One request of `publishInvalidation`. -/
structure Post (n : Nat) where
  target : Fin n
  event : PolicyEvent
  deriving DecidableEq

variable {n : Nat}

/-- The operations of a server with `n` agents. -/
inductive FleetOp (n : Nat) where
  | policies (op : PoliciesOp)
  /-- The receive of a worker of the dispatcher, which waits for an event. -/
  | receive
  /-- One of the requests an event is still to be sent with. -/
  | post (first : Post n) (others : List (Post n))
  | agent (target : Fin n) (op : AgentOp)

@[reducible] def FleetRes : FleetOp n → Type
  | .policies op => PoliciesRes op
  | .receive => Option PolicyEvent
  -- The request that was sent, and whether the handler of the agent got it.
  | .post _ _ => Post n × Bool
  | .agent _ op => AgentRes op

inductive FleetResult where
  | answer (answer : Adapter.ControlPlane.Answer)
  /-- A worker of the dispatcher has left its loop, or was cut off. -/
  | worked (returned : Bool)
  | agent (result : AgentResult)

abbrev FleetSteps (n : Nat) := Program (FleetOp n) FleetRes

/-- `publishInvalidation` as the agents see it: a request to each, in any order. -/
def publish : Nat → List (Post n) → FleetSteps n (Option Unit)
  | left + 1, first :: others =>
      .call (.post first others) fun sent => publish left ((first :: others).erase sent.1)
  | _, _ => .done none

def posts (n : Nat) (event : PolicyEvent) : List (Post n) :=
  (List.finRange n).map fun target => ⟨target, event⟩

def dispatchRound : FleetSteps n (Option Unit) :=
  .call .receive fun received =>
    match received with
    | none => .done (some ())
    | some event => publish n (posts n event)

/-- A goroutine of `startInvalidationDispatcher`, of which any number of rounds is looked at. -/
def dispatchWorker (rounds : Nat) : FleetSteps n FleetResult :=
  (dispatchRound.rounds rounds).bind fun left => .done (.worked left.isSome)

def serve (cfg : HandlerConfig) (r : PoliciesRequest) : FleetSteps n FleetResult :=
  ((policiesHandler true cfg r).mapOp FleetOp.policies fun _ answer => answer).bind fun answer =>
    .done (.answer answer)

def agentLoop (rounds : Nat) (target : Fin n) : FleetSteps n FleetResult :=
  ((startSyncLoop rounds).mapOp (FleetOp.agent target) fun _ answer => answer).bind fun result =>
    .done (.agent result)

/-- The policy file, the queue of the dispatcher, the events it had no room for and the
agents. -/
structure Fleet (n : Nat) where
  file : PolicyFile
  queue : Channel PolicyEvent := .make 256
  dropped : List PolicyEvent := []
  agents : Fin n → AgentState := fun _ => { invalidations := .make 32 }

/-- The callback `enqueueInvalidation`. Without targets there is no dispatcher. -/
def Fleet.enqueue (event : PolicyEvent) (fleet : Fleet n) : Fleet n :=
  if n = 0 then fleet
  else
    match fleet.queue.trySend event with
    | (true, queue) => { fleet with queue }
    | (false, _) => { fleet with dropped := fleet.dropped ++ [event] }

/-- The `publish` hook of `runAll`. -/
def Fleet.announce (fleet : Fleet n) (op : PoliciesOp) : Fleet n :=
  match op.announced? with
  | some (policyID, action) => fleet.enqueue ⟨policyID, action⟩
  | none => fleet

/-- The handler of an agent serves a request. -/
def Fleet.deliver (reading : AgentReading) (post : Post n) (fleet : Fleet n) : Fleet n :=
  { fleet with
    agents := Function.update fleet.agents post.target
      ((invalidate ⟨"POST", some post.event.policyID⟩).exec AgentState.perform (fun _ => reading)
        (fleet.agents post.target)).2 }

/-- What the outside decides: the errors and the clock of the store, the request that is sent
next and whether it gets through, and what an agent meets. -/
structure FleetReading where
  setting : Setting
  pick : Nat
  served : Bool
  agent : AgentReading

def Fleet.perform (reading : FleetReading) : (op : FleetOp n) → Fleet n → FleetRes op × Fleet n
  | .policies op, fleet =>
      ((performPolicies reading.setting op fleet.file).1,
        { fleet.announce op with file := (performPolicies reading.setting op fleet.file).2 })
  | .receive, fleet =>
      (fleet.queue.tryReceive.1, { fleet with queue := fleet.queue.tryReceive.2 })
  | .post first others, fleet =>
      let sent := (first :: others).getD reading.pick first
      ((sent, reading.served), if reading.served then fleet.deliver reading.agent sent else fleet)
  | .agent target op, fleet =>
      (((fleet.agents target).perform reading.agent op).1,
        { fleet with
          agents := Function.update fleet.agents target
            ((fleet.agents target).perform reading.agent op).2 })

/-- A receive waits until there is an event; the channel is never closed. -/
def Fleet.ready (fleet : Fleet n) : FleetOp n → Prop
  | .receive => fleet.queue.queue ≠ []
  | _ => True

abbrev FleetHistory (n : Nat) := List (Entry (FleetOp n) FleetRes FleetReading)

abbrev FleetPool (n : Nat) := Pool (FleetOp n) FleetRes FleetResult (Fleet n) FleetReading

/-- The threads of a server with `n` agents. -/
inductive Role (n : Nat) where
  | request (r : PoliciesRequest)
  | worker
  | loop (target : Fin n)

/-- The requests come first, then the workers of the dispatcher and the loops of the agents. -/
def roles (n : Nat) (requests : List PoliciesRequest) : List (Role n) :=
  requests.map .request ++ List.replicate (min n 4) .worker ++ (List.finRange n).map .loop

def Role.steps (cfg : HandlerConfig) (workRounds syncRounds : Nat) :
    Role n → FleetSteps n FleetResult
  | .request r => serve cfg r
  | .worker => dispatchWorker workRounds
  | .loop target => agentLoop syncRounds target

/-- The requests, in progress at the same time. Each writes once at most, so no worker of the
dispatcher is cut off. -/
def FleetPool.begin (n : Nat) (cfg : HandlerConfig) (requests : List PoliciesRequest)
    (syncRounds : Nat) (file : PolicyFile) : FleetPool n :=
  Pool.start ((roles n requests).map (Role.steps cfg (requests.length + 1) syncRounds)) { file }

def FleetPool.Legal (pool : FleetPool n) (schedule : List (Nat × FleetReading)) : Prop :=
  pool.Along Fleet.perform (fun fleet _ _ _ op => fleet.ready op) schedule

end Rlaas.Server
