import Rlaas.Lib.Pool
import Rlaas.Go.Time

/-! The circuit breaker of package `redis` and the calls it protects. `Allow`,
`RecordSuccess`, `RecordFailure` and the protected operation are atomic steps. -/

set_option autoImplicit false

namespace Rlaas.Store.Redis

open Go Effect

inductive CBState where
  | closed
  | opened
  | halfOpen
  deriving DecidableEq

/-- `failures` stays below the threshold while the breaker is closed and `probeCount` below
`maxProbe` while it is half open, so the sums do not overflow. -/
structure CircuitBreaker where
  state : CBState
  failures : Int
  threshold : Int
  halfOpenAfter : Duration
  maxProbe : Int
  probeCount : Int
  openedAt : Int

def newCircuitBreaker (threshold : Int) (halfOpenAfter : Duration) (maxProbe : Int) :
    CircuitBreaker where
  state := .closed
  failures := 0
  threshold
  halfOpenAfter
  maxProbe
  probeCount := 0
  openedAt := 0

namespace CircuitBreaker

def allow (now : Time) (cb : CircuitBreaker) : Bool × CircuitBreaker :=
  match cb.state with
  | .closed => (true, cb)
  | .opened =>
      if Arith.machine.wrap (now.unixNano .machine - cb.openedAt) > cb.halfOpenAfter then
        (true, { cb with state := .halfOpen, probeCount := 0 })
      else (false, cb)
  | .halfOpen => (decide (cb.probeCount < cb.maxProbe), cb)

def recordSuccess (cb : CircuitBreaker) : CircuitBreaker :=
  match cb.state with
  | .halfOpen =>
      let n := cb.probeCount + 1
      if n ≥ cb.maxProbe then { cb with state := .closed, failures := 0, probeCount := 0 }
      else { cb with probeCount := n }
  | .closed => { cb with failures := 0 }
  | .opened => cb

def recordFailure (now : Time) (cb : CircuitBreaker) : CircuitBreaker :=
  match cb.state with
  | .closed =>
      let n := cb.failures + 1
      if n ≥ cb.threshold then
        { cb with state := .opened, failures := n, openedAt := now.unixNano .machine }
      else { cb with failures := n }
  | .halfOpen => { cb with state := .opened, openedAt := now.unixNano .machine, probeCount := 0 }
  | .opened => cb

end CircuitBreaker

def errCircuitOpen : String := "circuit breaker is open"

inductive BreakerOp where
  | allow
  | fn
  | recordSuccess
  | recordFailure

/-- The answer to `fn` is its error, if any. -/
@[reducible] def BreakerRes : BreakerOp → Type
  | .allow => Bool
  | .fn => Option String
  | .recordSuccess => Unit
  | .recordFailure => Unit

abbrev BreakerSteps := Program BreakerOp BreakerRes

/-- `Store.do`, on a store with or without a breaker. -/
def doCall (cb : Bool) : BreakerSteps (Option String) :=
  if !cb then .call .fn fun err => .done err
  else
    .call .allow fun allowed =>
      if !allowed then .done (some errCircuitOpen)
      else
        .call .fn fun err =>
          match err with
          | some message => .call .recordFailure fun _ => .done (some message)
          | none => .call .recordSuccess fun _ => .done none

/-- A client that makes a number of calls through a breaker, one after the other. -/
def client (calls : Nat) : BreakerSteps (Option Unit) :=
  ((doCall true).bind fun _ => .done none).rounds calls

/-- What a step reads: the clock, and the outcome of the protected operation. -/
structure BreakerReading where
  now : Time
  outcome : Option String

/-- The breaker, and how often `Allow` returned true since it became half open last. -/
structure Observed where
  breaker : CircuitBreaker
  probes : Nat

namespace Observed

def start (breaker : CircuitBreaker) : Observed := ⟨breaker, 0⟩

/-- The call of `Allow` that makes the breaker half open is the first of its period. -/
def allow (now : Time) (observed : Observed) : Bool × Observed :=
  let (allowed, breaker) := observed.breaker.allow now
  (allowed,
    { breaker
      probes :=
        if observed.breaker.state = .opened ∧ allowed then 1
        else if observed.breaker.state = .halfOpen ∧ allowed then observed.probes + 1
        else observed.probes })

def perform (reading : BreakerReading) :
    (op : BreakerOp) → Observed → BreakerRes op × Observed
  | .allow, observed => observed.allow reading.now
  | .fn, observed => (reading.outcome, observed)
  | .recordSuccess, observed =>
      ((), { observed with breaker := observed.breaker.recordSuccess })
  | .recordFailure, observed =>
      ((), { observed with breaker := observed.breaker.recordFailure reading.now })

end Observed

abbrev BreakerPool := Pool BreakerOp BreakerRes (Option Unit) Observed BreakerReading

/-- One breaker and its clients, each with the number of its calls. -/
def BreakerPool.begin (breaker : CircuitBreaker) (calls : List Nat) : BreakerPool :=
  Pool.start (calls.map client) (.start breaker)

end Rlaas.Store.Redis
