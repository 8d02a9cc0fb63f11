import Rlaas.Lib.Monitor
import Rlaas.Model.Types

/-! The interface between the algorithms and their environment: the operations
of `CounterStore` (with the optional atomic timestamp operation) and the clock. -/

set_option autoImplicit false

namespace Rlaas.Store

open Go Model Effect

inductive CounterOp where
  | increment (key : String) (value : Int) (ttl : Duration)
  | get (key : String)
  | set (key : String) (value : Int) (ttl : Duration)
  | compareAndSwap (key : String) (oldVal newVal : Int) (ttl : Duration)
  | delete (key : String)
  | addTimestamp (key : String) (ts : Int) (ttl : Duration)
  | countAfter (key : String) (after : Int)
  | trimBefore (key : String) (before : Int)
  | checkAndAddTimestamps (key : String) (cutoff : Int) (limit cost : Int) (ts : Int) (ttl : Duration)
  | acquireLease (key : String) (limit : Int) (ttl : Duration)
  | releaseLease (key : String)
  deriving DecidableEq

namespace CounterOp

/-- What the operation returns besides its error. -/
@[reducible] def Value : CounterOp → Type
  | .increment .. => Int
  | .get .. => Int
  | .set .. => Unit
  | .compareAndSwap .. => Bool
  | .delete .. => Unit
  | .addTimestamp .. => Unit
  | .countAfter .. => Int
  | .trimBefore .. => Unit
  | .checkAndAddTimestamps .. => Int × Bool
  | .acquireLease .. => Bool × Int
  | .releaseLease .. => Unit

def key : CounterOp → String
  | .increment key .. => key
  | .get key => key
  | .set key .. => key
  | .compareAndSwap key .. => key
  | .delete key => key
  | .addTimestamp key .. => key
  | .countAfter key .. => key
  | .trimBefore key .. => key
  | .checkAndAddTimestamps key .. => key
  | .acquireLease key .. => key
  | .releaseLease key => key

end CounterOp

/-- What an evaluator asks of its environment: its own clock `e.Now()`, the
process clock `time.Now()`, or a store operation. -/
inductive EnvOp where
  | now
  | wallClock
  | store (op : CounterOp)
  deriving DecidableEq

@[reducible] def EnvRes : EnvOp → Type
  | .now => Time
  | .wallClock => Time
  | .store op => Except String op.Value

/-- A program over the environment; what an `Evaluate` method is. -/
abbrev Evaluation (α : Type) := Program EnvOp EnvRes α

abbrev Answer := Except String Decision

/-- `now := time.Now(); if e.Now != nil { now = e.Now() }`. -/
def readNow {α : Type} (next : Time → Evaluation α) : Evaluation α := .call .now next

/-- Perform a store operation and return its error, if any, to the caller. -/
def attempt (op : CounterOp) (next : op.Value → Evaluation Answer) : Evaluation Answer :=
  .call (.store op) fun answer =>
    match answer with
    | .error message => .done (.error message)
    | .ok value => next value

theorem exec_attempt_ok {σ : Type} (handler : Handler EnvOp EnvRes σ Time) {op : CounterOp}
    (next : op.Value → Evaluation Answer) (clock : Nat → Time) {state after : σ} {value : op.Value}
    (outcome : handler (clock 0) (.store op) state = (.ok value, after)) :
    (attempt op next).exec handler clock state =
      (next value).exec handler (fun n => clock (n + 1)) after := by
  rw [attempt, Program.exec_call, outcome]

theorem accepts_attempt {S : Type} {monitor : Monitor EnvOp EnvRes S Answer} {state : S}
    {op : CounterOp} {next : op.Value → Evaluation Answer}
    (guarded : monitor.guard state (.store op))
    (fails : ∀ message, monitor.accept (monitor.advance state (.store op) (.error message))
      (.error message))
    (continues : ∀ value, monitor.expects state (.store op) (.ok value) →
      monitor.Accepts (monitor.advance state (.store op) (.ok value)) (next value)) :
    monitor.Accepts state (attempt op next) := by
  refine ⟨guarded, fun answer expected => ?_⟩
  cases answer with
  | error message => exact fails message
  | ok value => exact continues value expected

end Rlaas.Store
