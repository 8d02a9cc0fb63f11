import Rlaas.Algorithm.Evaluators
import Rlaas.Store.MemoryCells
import Rlaas.Lib.Serial

/-! Calls made one after another on one memory store. -/

set_option autoImplicit false

namespace Rlaas.Algorithm

open Go Model Store Effect

/-- A call with the readings its operations get, in order. -/
structure TimedCall where
  req : RequestContext
  clock : Nat → Time

def turns (A : Arith) (kind : Kind) (policy : Policy) (key : String) (calls : List TimedCall)
    (store : MemoryStore) : List (Turn EnvOp EnvRes TimedCall Answer MemoryStore) :=
  serial (MemoryStore.env A) (fun call : TimedCall => kind.evaluate A true policy call.req key)
    TimedCall.clock calls store

/-- A call at one instant of a clock that the evaluator and the store share. -/
structure InstantCall where
  req : RequestContext
  now : Time

def InstantCall.clock (call : InstantCall) (_ : Nat) : Time := call.now

/-- A call for a quantity, on a second. -/
def callAt (seconds quantity : Int) : InstantCall := ⟨{ quantity }, ⟨seconds * second, utc⟩⟩

def visit (A : Arith) (kind : Kind) (policy : Policy) (key : String) (call : InstantCall)
    (store : MemoryStore) : Turn EnvOp EnvRes InstantCall Answer MemoryStore :=
  turn (MemoryStore.env A) (fun call : InstantCall => kind.evaluate A true policy call.req key)
    InstantCall.clock call store

def visits (A : Arith) (kind : Kind) (policy : Policy) (key : String) (calls : List InstantCall)
    (store : MemoryStore) : List (Turn EnvOp EnvRes InstantCall Answer MemoryStore) :=
  serial (MemoryStore.env A) (fun call : InstantCall => kind.evaluate A true policy call.req key)
    InstantCall.clock calls store

/-- The store these calls leave. -/
def visited (A : Arith) (kind : Kind) (policy : Policy) (key : String) (calls : List InstantCall)
    (store : MemoryStore) : MemoryStore :=
  serialState (MemoryStore.env A)
    (fun call : InstantCall => kind.evaluate A true policy call.req key) InstantCall.clock calls store

/-- A call that follows others. -/
def visitAfter (A : Arith) (kind : Kind) (policy : Policy) (key : String)
    (before : List InstantCall) (call : InstantCall) (store : MemoryStore) :
    Turn EnvOp EnvRes InstantCall Answer MemoryStore :=
  visit A kind policy key call (visited A kind policy key before store)

def answered (reason : String) : Answer → Bool
  | .ok decision => decision.reason == reason
  | .error _ => false

structure Admission where
  time : Int
  cost : Int
  deriving DecidableEq

/-- The calls of a run that were answered with this reason. -/
def admissionsOf (policy : Policy) (reason : String)
    (done : List (Turn EnvOp EnvRes InstantCall Answer MemoryStore)) : List Admission :=
  done.filterMap fun turn =>
    if answered reason turn.result then
      some ⟨turn.call.now.nanos, cost turn.call.req policy.algorithm⟩
    else none

theorem admissionsOf_snoc (policy : Policy) (reason : String)
    (done : List (Turn EnvOp EnvRes InstantCall Answer MemoryStore))
    (last : Turn EnvOp EnvRes InstantCall Answer MemoryStore) :
    admissionsOf policy reason (done ++ [last]) = admissionsOf policy reason done ++
      if answered reason last.result then
        [⟨last.call.now.nanos, cost last.call.req policy.algorithm⟩]
      else [] := by
  unfold admissionsOf
  rw [filterMap_snoc]
  split
  · rfl
  · rfl

theorem admissionsOf_eq (policy : Policy) (reason : String)
    (done : List (Turn EnvOp EnvRes InstantCall Answer MemoryStore)) :
    admissionsOf policy reason done =
      ((done.filter fun turn => answered reason turn.result).map fun turn => turn.call).map
        fun call => ⟨call.now.nanos, cost call.req policy.algorithm⟩ := by
  induction done with
  | nil => rfl
  | cons turn rest ih =>
      rw [admissionsOf, List.filterMap_cons, List.filter_cons]
      cases answered reason turn.result with
      | true => exact congrArg (_ :: ·) ih
      | false => exact ih

theorem admissionsOf_times (A : Arith) (kind : Kind) (policy : Policy) (key reason : String)
    (calls : List InstantCall) (store : MemoryStore) :
    ((admissionsOf policy reason (visits A kind policy key calls store)).map Admission.time).Sublist
      (calls.map fun call => call.now.nanos) := by
  induction calls generalizing store with
  | nil => exact .slnil
  | cons call rest ih =>
      rw [visits, serial, admissionsOf, List.filterMap_cons]
      split
      · exact (ih _).cons _
      · next found =>
          obtain ⟨_, same⟩ := Option.ite_none_right_eq_some.mp found
          cases same
          exact (ih _).cons_cons _

section Cons

variable (A : Arith) (kind : Kind) (policy : Policy) (key : String) (call : InstantCall)
  (rest : List InstantCall) (store : MemoryStore)

theorem visited_nil : visited A kind policy key [] store = store := rfl

theorem visited_cons :
    visited A kind policy key (call :: rest) store =
      visited A kind policy key rest (visit A kind policy key call store).after := rfl

variable {A kind policy key call rest store}

theorem admissionsOf_visits_cons {reason : String}
    (taken : answered reason (visit A kind policy key call store).result = true) :
    admissionsOf policy reason (visits A kind policy key (call :: rest) store) =
      ⟨call.now.nanos, cost call.req policy.algorithm⟩ ::
        admissionsOf policy reason
          (visits A kind policy key rest (visit A kind policy key call store).after) :=
  List.filterMap_cons_some (if_pos taken)

end Cons

/-- What `Get` returns. -/
def seen (store : MemoryStore) (now : Int) (key : String) : Int :=
  ((store.cells key).value.live now).value

theorem seen_of_absent {store : MemoryStore} {key : String}
    (absent : (store.cells key).value = {}) (now : Int) : seen store now key = 0 := by
  rw [seen, absent]
  rfl

/-- A call of any algorithm under one of two keys. -/
structure SharedCall where
  own : Bool
  kind : Kind
  policy : Policy
  req : RequestContext
  clock : Nat → Time

def SharedCall.program (A : Arith) (ownKey otherKey : String) (call : SharedCall) :
    Evaluation Answer :=
  call.kind.evaluate A true call.policy call.req (if call.own then ownKey else otherKey)

def sharedTurns (A : Arith) (ownKey otherKey : String) (calls : List SharedCall)
    (store : MemoryStore) : List (Turn EnvOp EnvRes SharedCall Answer MemoryStore) :=
  serial (MemoryStore.env A) (SharedCall.program A ownKey otherKey) SharedCall.clock calls store

end Rlaas.Algorithm
