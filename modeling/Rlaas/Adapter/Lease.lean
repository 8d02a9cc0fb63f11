import Rlaas.Lib.Pool
import Rlaas.Engine.Acquire

/-! Leases as the HTTP and the gRPC adapter hand them out. A registry keeps the
release callbacks by lease ID; the acquire handlers fill it and the release
handlers empty it. The two registries differ in how they make an ID. -/

set_option autoImplicit false

namespace Rlaas.Adapter

open Go Model Store Key Engine Effect

/-- The `items` of a lease registry; every method holds its lock. -/
abbrev LeaseItems (φ : Type) := String → Option φ

namespace LeaseItems

variable {φ : Type}

def empty : LeaseItems φ := fun _ => none

def put (id : String) (fn : φ) (items : LeaseItems φ) : String × LeaseItems φ :=
  (id, Function.update items id (some fn))

def pop (id : String) (items : LeaseItems φ) : Option φ × LeaseItems φ :=
  match items id with
  | some fn => (some fn, Function.update items id none)
  | none => (none, items)

end LeaseItems

namespace LeaseRegistry

/-- The ID for the sixteen bytes read from `crypto/rand`. -/
def newID (b : Vector UInt8 16) : String := "lease-" ++ String.ofList (hexEncode b.toList)

def put {φ : Type} (b : Vector UInt8 16) (fn : φ) (items : LeaseItems φ) : String × LeaseItems φ :=
  items.put (newID b) fn

end LeaseRegistry

namespace GRPCLeaseRegistry

def newID (unixNano : Int) : String := "grpc-lease-" ++ toString unixNano

def put {φ : Type} (unixNano : Int) (fn : φ) (items : LeaseItems φ) : String × LeaseItems φ :=
  items.put (newID unixNano) fn

end GRPCLeaseRegistry

abbrev Callback := Program EngineOp EngineRes (Except String Unit)

inductive LeaseOp where
  | engine (op : EngineOp)
  | put (fn : Callback)
  | pop (id : String)

@[reducible] def LeaseRes : LeaseOp → Type
  | .engine op => EngineRes op
  | .put _ => String
  | .pop _ => Option Callback

abbrev Handling (ρ : Type) := Program LeaseOp LeaseRes ρ

/-- A program of the engine within a handler. -/
def engineCall {α ρ : Type} (program : Program EngineOp EngineRes α) (next : α → Handling ρ) :
    Handling ρ :=
  (program.mapOp LeaseOp.engine fun _ answer => answer).bind next

/-- `if decision.Allowed && release != nil`: the callback is never nil. -/
def register {ρ : Type} (start : LeaseStart) (reply : String → ρ) : Handling ρ :=
  if start.decision.allowed then .call (.put start.release) fun id => .done (reply id)
  else .done (reply "")

/-- Take the callback of a lease from the registry and call it; the replies are
for an unknown ID, an error of the callback and a released lease. -/
def popAndRelease {ρ : Type} (id : String) (missing failed released : ρ) : Handling ρ :=
  .call (.pop id) fun found =>
    match found with
    | none => .done missing
    | some release =>
        engineCall release fun result =>
          match result with
          | .error _ => .done failed
          | .ok _ => .done released

namespace HTTP

structure AcquireResponse where
  allowed : Bool
  leaseID : String
  reason : String
  action : ActionType

inductive Reply where
  | error (text : String) (status : Nat)
  | acquired (response : AcquireResponse)
  | released

/-- The bodies of the two requests, if they decode; a release names a lease ID. -/
inductive Request where
  | acquire (body : Option RequestContext)
  | release (body : Option String)

/-- The acquire handler of `NewAcquireReleaseHandlers`. The engine returns no
error, so its 500 branch is never taken. -/
def acquire (A : Arith) (engine : DefaultEngine) (body : Option RequestContext) : Handling Reply :=
  match body with
  | none => .done (.error "invalid request" 400)
  | some req =>
      engineCall (engine.startConcurrencyLease A req) fun start =>
        register start fun leaseID =>
          .acquired
            { allowed := start.decision.allowed
              leaseID
              reason := start.decision.reason
              action := start.decision.action }

/-- The release handler of `NewAcquireReleaseHandlers`. -/
def release (body : Option String) : Handling Reply :=
  match body with
  | none => .done (.error "invalid request" 400)
  | some leaseID =>
      if leaseID = "" then .done (.error "invalid request" 400)
      else
        popAndRelease leaseID (.error "lease not found" 404) (.error "release failed" 500) .released

def Request.handler (A : Arith) (engine : DefaultEngine) : Request → Handling Reply
  | .acquire body => HTTP.acquire A engine body
  | .release body => HTTP.release body

end HTTP

namespace GRPC

structure AcquireRequest where
  requestID : String := ""
  orgID : String := ""
  tenantID : String := ""
  operation : String := ""

def AcquireRequest.context (request : AcquireRequest) : RequestContext :=
  { requestID := request.requestID
    orgID := request.orgID
    tenantID := request.tenantID
    signalType := "grpc"
    operation := request.operation
    endpoint := request.operation
    method := "UNARY" }

/-- The responses of the two calls; neither returns an error. -/
inductive Reply where
  | acquired (allowed : Bool) (leaseID reason : String)
  | released (released : Bool)

inductive Request where
  | acquire (request : AcquireRequest)
  | release (leaseID : String)

/-- `RateLimitService.Acquire`. -/
def acquire (A : Arith) (engine : DefaultEngine) (request : AcquireRequest) : Handling Reply :=
  engineCall (engine.startConcurrencyLease A request.context) fun start =>
    register start fun leaseID => .acquired start.decision.allowed leaseID start.decision.reason

/-- `RateLimitService.Release`. -/
def release (leaseID : String) : Handling Reply :=
  popAndRelease leaseID (.released false) (.released false) (.released true)

def Request.handler (A : Arith) (engine : DefaultEngine) : Request → Handling Reply
  | .acquire request => GRPC.acquire A engine request
  | .release leaseID => GRPC.release leaseID

end GRPC

/-- What an operation may read: the clock, and the random bytes of a new ID. -/
structure Reading where
  time : Time
  random : Vector UInt8 16

def HTTP.newID (reading : Reading) : String := LeaseRegistry.newID reading.random

def GRPC.newID (reading : Reading) : String := GRPCLeaseRegistry.newID reading.time.nanos

/-- The state behind an adapter: the policy side and the counter store of the
engine, and the registry. -/
structure LeaseState (π σ : Type) where
  side : π
  store : σ
  items : LeaseItems Callback := .empty

/-- The operations of the handlers, with a registry that makes its IDs by `newID`. -/
def perform {π σ : Type} (policies : Handler PolicyOp PolicyRes π Time)
    (counters : Handler EnvOp EnvRes σ Time) (newID : Reading → String) (reading : Reading) :
    (op : LeaseOp) → LeaseState π σ → LeaseRes op × LeaseState π σ
  | .engine (.policy op), state =>
      let (answer, side) := policies reading.time op state.side
      (answer, { state with side })
  | .engine (.env op), state =>
      let (answer, store) := counters reading.time op state.store
      (answer, { state with store })
  | .put fn, state =>
      let (id, items) := state.items.put (newID reading) fn
      (id, { state with items })
  | .pop id, state =>
      let (found, items) := state.items.pop id
      (found, { state with items })

end Rlaas.Adapter
