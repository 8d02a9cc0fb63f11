import Rlaas.Lib.ReadCommitted
import Rlaas.Go.Arith

/-! `CheckAndAddTimestamps` of package `postgres`: the statements of one transaction at the
level `READ COMMITTED`, behind an advisory lock on the hash of the key. -/

set_option autoImplicit false

namespace Rlaas.Store.Postgres

open Go Effect ReadCommitted

/-- A row of `rlaas_timestamps`. -/
structure Timestamp where
  key : String
  ts : Int
  expiresAt : Option Int
  deriving DecidableEq

/-- `WHERE key = $1 AND ts < $2` -/
def stale (key : String) (cutoff : Int) (row : Timestamp) : Bool := row.key == key && row.ts < cutoff

/-- `WHERE key = $1 AND ts >= $2` -/
def recent (key : String) (cutoff : Int) (row : Timestamp) : Bool :=
  row.key == key && cutoff ≤ row.ts

abbrev LogTransaction := Program (Op Timestamp Int) Res (Except String (Int × Bool))

/-- Every return after `BeginTx` runs the deferred `tx.Rollback()`. -/
def leaveLog (tx : Nat) (result : Except String (Int × Bool)) : LogTransaction :=
  .call (.rollback tx) fun _ => .done result

/-- The loop over the `cost` rows. -/
def insertRows (tx : Nat) (row : Timestamp) (after : LogTransaction) : Nat → LogTransaction
  | 0 => after
  | n + 1 =>
      .call (.insert tx row) fun result =>
        match result with
        | .error err => leaveLog tx (.error ("check-and-add insert: " ++ err))
        | .ok _ => insertRows tx row after n

def commitLog (tx : Nat) (count : Int) : LogTransaction :=
  .call (.commit tx) fun result =>
    match result with
    | .error err => leaveLog tx (.error err)
    | .ok _ => leaveLog tx (.ok (count, true))

/-- What follows the count; the error of the commit is not looked at when nothing is added. -/
def addRows (A : Arith) (tx : Nat) (limit cost : Int) (row : Timestamp) (count : Int) :
    LogTransaction :=
  if A.wrap (count + cost) > limit then
    .call (.commit tx) fun _ => leaveLog tx (.ok (count, false))
  else insertRows tx row (commitLog tx count) cost.toNat

def countAndAdd (A : Arith) (tx : Nat) (cutoff limit cost : Int) (row : Timestamp) :
    LogTransaction :=
  .call (.count tx (recent row.key cutoff)) fun result =>
    match result with
    | .error err => leaveLog tx (.error ("check-and-add count: " ++ err))
    | .ok count => addRows A tx limit cost row count

/-- What follows `BeginTx`; the errors of the lock and of the `DELETE` are not looked at. -/
def lockAndAdd (A : Arith) (hashtext : String → Int) (tx : Nat) (cutoff limit cost : Int)
    (row : Timestamp) : LogTransaction :=
  .call (.lock tx (hashtext row.key)) fun _ =>
    .call (.delete tx (stale row.key cutoff)) fun _ => countAndAdd A tx cutoff limit cost row

def checkAndAddTimestamps (A : Arith) (hashtext : String → Int) (tx : Nat) (key : String)
    (cutoff limit cost ts : Int) (exp : Option Int) : LogTransaction :=
  .call (.begin tx) fun result =>
    match result with
    | .error err => .done (.error ("check-and-add begin: " ++ err))
    | .ok _ => lockAndAdd A hashtext tx cutoff limit cost ⟨key, ts, exp⟩

/-- The arguments of a call. -/
structure LogCall where
  key : String
  cutoff : Int
  limit : Int
  cost : Int
  ts : Int
  exp : Option Int := none
  deriving DecidableEq

namespace LogCall

variable (A : Arith) (hashtext : String → Int) (call : LogCall)

def row : Timestamp := ⟨call.key, call.ts, call.exp⟩

def transaction (tx : Nat) : LogTransaction :=
  checkAndAddTimestamps A hashtext tx call.key call.cutoff call.limit call.cost call.ts call.exp

/-- The rows of the key that a call with nothing else going on counts. -/
def counted (rows : List Timestamp) : Int := (rows.countP (recent call.key call.cutoff) : Nat)

def allowed (count : Int) : Bool := A.wrap (count + call.cost) ≤ call.limit

/-- What a call with nothing else going on answers. -/
def answer (rows : List Timestamp) : Int × Bool :=
  (call.counted rows, call.allowed A (call.counted rows))

/-- The rows it leaves. -/
def leaves (rows : List Timestamp) : List Timestamp :=
  rows.filter (fun row => !stale call.key call.cutoff row) ++
    if call.allowed A (call.counted rows) then List.replicate call.cost.toNat call.row else []

end LogCall

end Rlaas.Store.Postgres
