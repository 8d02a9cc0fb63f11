import Rlaas.Lib.Channel
import Rlaas.Lib.Pool

/-! `AsyncAuditLogger` of package `analytics`: a buffered channel before another logger. The
records are of any type, since the logger never looks into them. -/

set_option autoImplicit false

namespace Rlaas.Analytics

open Effect

variable {R : Type}

/-- A record with the call of `Log` it was given to. -/
structure Sent (R : Type) where
  call : Nat
  record : R
  deriving DecidableEq

structure AsyncAuditLogger (R : Type) where
  ch : Channel (Sent R)
  stop : Bool
  done : Bool

def newAsyncAuditLogger (bufSize : Int) : AsyncAuditLogger R where
  ch := .make (if bufSize ≤ 0 then 8192 else bufSize.toNat)
  stop := false
  done := false

inductive AuditOp (R : Type) where
  /-- The send of `Log`, with its `default`. -/
  | send (sent : Sent R)
  /-- The `select` of the loop, which waits for a record or for `stop`. -/
  | select
  /-- The receive of the drain, with its `default`. -/
  | receive
  | innerLog (sent : Sent R)
  | closeStop
  | closeDone
  | waitDone
  | innerClose

inductive Selected (R : Type) where
  | record (sent : Sent R)
  | stop

@[reducible] def AuditRes : AuditOp R → Type
  | .send _ => Bool
  | .select => Selected R
  | .receive => Option (Sent R)
  | .innerLog _ => Option String
  | .closeStop => Unit
  | .closeDone => Unit
  | .waitDone => Unit
  | .innerClose => Option String

inductive AuditResult where
  | logged (err : Option String)
  | closed (err : Option String)
  /-- The loop has returned, or was cut off. -/
  | looped (returned : Bool)
  deriving DecidableEq

abbrev AuditSteps (R : Type) := Program (AuditOp R) AuditRes

def bufferFull : String := "audit buffer full"

def log (sent : Sent R) : AuditSteps R AuditResult :=
  .call (.send sent) fun accepted => .done (.logged (if accepted then none else some bufferFull))

def close : AuditSteps R AuditResult :=
  .call .closeStop fun _ =>
    .call .waitDone fun _ =>
      .call .innerClose fun err => .done (.closed err)

/-- One round of the inner loop, which drains what is left. -/
def drainRound : AuditSteps R (Option Unit) :=
  .call .receive fun received =>
    match received with
    | some sent => .call (.innerLog sent) fun _ => .done none
    | none => .done (some ())

/-- One round of the loop; an error of the inner logger is only reported. -/
def loopRound (rounds : Nat) : AuditSteps R (Option (Option Unit)) :=
  .call .select fun selected =>
    match selected with
    | .record sent => .call (.innerLog sent) fun _ => .done none
    | .stop => (drainRound.rounds rounds).bind fun drained => .done (some drained)

/-- The goroutine `loop`, of which any number of rounds is looked at. -/
def loop (rounds : Nat) : AuditSteps R AuditResult :=
  ((loopRound rounds).rounds rounds).bind fun left =>
    match left with
    | some (some ()) => .call .closeDone fun _ => .done (.looped true)
    | _ => .done (.looped false)

/-- Which ready branch a `select` takes, and what the inner logger answers. -/
structure AuditReading where
  preferStop : Bool
  err : Option String

namespace AsyncAuditLogger

/-- The steps that wait: a `select` without a ready branch, and `<-a.done`. -/
def blocked (logger : AsyncAuditLogger R) : AuditOp R → Bool
  | .select => logger.ch.queue.isEmpty && !logger.stop
  | .waitDone => !logger.done
  | _ => false

def perform (reading : AuditReading) :
    (op : AuditOp R) → AsyncAuditLogger R → AuditRes op × AsyncAuditLogger R
  | .send sent, logger =>
      ((logger.ch.trySend sent).1, { logger with ch := (logger.ch.trySend sent).2 })
  | .select, logger =>
      if logger.stop && (reading.preferStop || logger.ch.queue.isEmpty) then (.stop, logger)
      else
        match logger.ch.tryReceive with
        | (some sent, ch) => (.record sent, { logger with ch })
        | (none, _) => (.stop, logger)
  | .receive, logger => (logger.ch.tryReceive.1, { logger with ch := logger.ch.tryReceive.2 })
  | .innerLog _, logger => (reading.err, logger)
  | .closeStop, logger => ((), { logger with stop := true })
  | .closeDone, logger => ((), { logger with done := true })
  | .waitDone, logger => ((), logger)
  | .innerClose, logger => (reading.err, logger)

end AsyncAuditLogger

abbrev AuditPool (R : Type) :=
  Pool (AuditOp R) AuditRes AuditResult (AsyncAuditLogger R) AuditReading

/-- Thread 0 is the loop, thread 1 the call of `Close` and the others the calls of `Log`. -/
def AuditPool.begin (bufSize : Int) (rounds : Nat) (records : List R) : AuditPool R :=
  Pool.start (loop rounds :: close :: records.mapIdx fun n record => log ⟨n + 2, record⟩)
    (newAsyncAuditLogger bufSize)

/-- A schedule that lets nothing go on that waits. -/
def Unblocked (pool : AuditPool R) (schedule : List (Nat × AuditReading)) : Prop :=
  pool.Along AsyncAuditLogger.perform (fun logger _ _ _ op => logger.blocked op = false) schedule

instance (pool : AuditPool R) (schedule : List (Nat × AuditReading)) :
    Decidable (Unblocked pool schedule) :=
  inferInstanceAs (Decidable (Pool.Along ..))

def sentItem : (op : AuditOp R) → AuditRes op → Option (Sent R)
  | .send sent, true => some sent
  | _, _ => none

def passedItem : AuditOp R → Option (Sent R)
  | .innerLog sent => some sent
  | _ => none

/-- The records whose `Log` found room, in that order. -/
def accepted (history : List (Entry (AuditOp R) AuditRes AuditReading)) : List (Sent R) :=
  history.filterMap fun entry => sentItem entry.event.op entry.event.result

/-- The records passed to the inner logger, in that order. -/
def passed (history : List (Entry (AuditOp R) AuditRes AuditReading)) : List (Sent R) :=
  history.filterMap fun entry => passedItem entry.event.op

end Rlaas.Analytics
