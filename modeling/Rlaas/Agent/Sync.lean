import Rlaas.Go.Strings
import Rlaas.Go.Time
import Rlaas.Lib.Channel
import Rlaas.Lib.Pool

/-! The sidecar agent: the handler of `/rlaas/v1/agent/invalidate` and the loop that fetches
the policies from the upstream server. -/

set_option autoImplicit false

namespace Rlaas.Agent

open Go Effect

structure SyncState where
  lastSuccess : Int := zeroNanos
  lastError : String := ""
  runs : Int := 0

def SyncState.markSuccess (t : Int) (state : SyncState) : SyncState :=
  { lastSuccess := t, lastError := "", runs := state.runs + 1 }

def SyncState.markError (err : String) (state : SyncState) : SyncState :=
  { state with lastError := err, runs := state.runs + 1 }

/-- How `fetchPolicySnapshot` goes: no request can be made, the request fails, or it is
answered with a status. -/
inductive Fetched where
  | failed (err : String)
  | answered (statusCode : Int)

/-- What the `select` of the loop finds, if anything. -/
inductive Selected where
  | cancelled
  | invalidation (policyID : String)
  | tick
  | nothing

inductive AgentOp where
  /-- The send of the handler, with its `default`. -/
  | send (policyID : String)
  | select
  /-- The receive of the inner loop, with its `default`. -/
  | receive
  | fetchStart
  | fetchEnd
  | now
  | markSuccess (t : Int)
  | markError (err : String)
  /-- `cancel()` at shutdown. -/
  | cancel

@[reducible] def AgentRes : AgentOp → Type
  | .send _ => Bool
  | .select => Selected
  | .receive => Option String
  | .fetchStart => Unit
  | .fetchEnd => Fetched
  | .now => Int
  | .markSuccess _ => Unit
  | .markError _ => Unit
  | .cancel => Unit

inductive Response where
  | error (message : String) (status : Nat)
  /-- Status 202 with `queued` and the identifier. -/
  | queued (policyID : String)
  deriving DecidableEq

inductive AgentResult where
  | response (response : Response)
  /-- The loop has returned, or was cut off. -/
  | looped (returned : Bool)
  | shutdown
  deriving DecidableEq

abbrev AgentSteps := Program AgentOp AgentRes

/-- A request to the handler; `body` is the `policy_id` of the body, if this decodes. -/
structure InvalidateRequest where
  method : String
  body : Option String

def invalidate (r : InvalidateRequest) : AgentSteps AgentResult :=
  if r.method ≠ "POST" then .done (.response (.error "method not allowed" 405))
  else
    match r.body with
    | none => .done (.response (.error "invalid request" 400))
    | some policyID =>
        if Strings.trimSpace policyID.toList = [] then
          .done (.response (.error "policy_id is required" 400))
        else .call (.send policyID) fun _ => .done (.response (.queued policyID))

def fetchPolicySnapshot : AgentSteps Unit :=
  .call .fetchStart fun _ =>
    .call .fetchEnd fun fetched =>
      match fetched with
      | .failed err => .call (.markError err) fun _ => .done ()
      | .answered statusCode =>
          if statusCode ≥ 200 ∧ statusCode < 300 then
            .call .now fun t => .call (.markSuccess t) fun _ => .done ()
          else
            .call (.markError ("policy sync status: " ++ toString statusCode)) fun _ => .done ()

def drainRound : AgentSteps (Option Unit) :=
  .call .receive fun received =>
    match received with
    | some _ => .done none
    | none => .done (some ())

/-- One round of the loop. A `select` that finds nothing is made again. -/
def syncRound (rounds : Nat) : AgentSteps (Option Bool) :=
  .call .select fun selected =>
    match selected with
    | .cancelled => .done (some true)
    | .invalidation _ =>
        (drainRound.rounds rounds).bind fun drained =>
          match drained with
          | some () => fetchPolicySnapshot.bind fun _ => .done none
          | none => .done (some false)
    | .tick => fetchPolicySnapshot.bind fun _ => .done none
    | .nothing => .done none

/-- The goroutine `startSyncLoop`, of which any number of rounds is looked at. -/
def startSyncLoop (rounds : Nat) : AgentSteps AgentResult :=
  fetchPolicySnapshot.bind fun _ =>
    ((syncRound rounds).rounds rounds).bind fun left => .done (.looped (left.getD false))

structure AgentState where
  invalidations : Channel String
  cancelled : Bool := false
  sync : SyncState := {}

inductive Branch where
  | done
  | receive
  | tick

/-- Which branch a `select` tries, the answer of the upstream server and the clock. -/
structure AgentReading where
  branch : Branch
  fetched : Fetched
  now : Int

def AgentState.perform (reading : AgentReading) :
    (op : AgentOp) → AgentState → AgentRes op × AgentState
  | .send policyID, state =>
      ((state.invalidations.trySend policyID).1,
        { state with invalidations := (state.invalidations.trySend policyID).2 })
  | .select, state =>
      match reading.branch with
      | .done => (if state.cancelled then .cancelled else .nothing, state)
      | .receive =>
          match state.invalidations.tryReceive with
          | (some policyID, invalidations) => (.invalidation policyID, { state with invalidations })
          | (none, _) => (.nothing, state)
      | .tick => (.tick, state)
  | .receive, state =>
      (state.invalidations.tryReceive.1,
        { state with invalidations := state.invalidations.tryReceive.2 })
  | .fetchStart, state => ((), state)
  | .fetchEnd, state => (reading.fetched, state)
  | .now, state => (reading.now, state)
  | .markSuccess t, state => ((), { state with sync := state.sync.markSuccess t })
  | .markError err, state => ((), { state with sync := state.sync.markError err })
  | .cancel, state => ((), { state with cancelled := true })

abbrev AgentPool := Pool AgentOp AgentRes AgentResult AgentState AgentReading

abbrev AgentHistory := List (Entry AgentOp AgentRes AgentReading)

/-- Thread 0 is the loop, thread 1 the shutdown and the others are the requests. The agent
makes its channel with room for 32. -/
def AgentPool.begin (capacity rounds : Nat) (requests : List InvalidateRequest) : AgentPool :=
  Pool.start (startSyncLoop rounds :: (.call .cancel fun _ => .done .shutdown) ::
    requests.map invalidate) { invalidations := .make capacity }

end Rlaas.Agent
