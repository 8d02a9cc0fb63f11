import Rlaas.Lib.Pool
import Rlaas.Lib.Snapshot
import Rlaas.Go.Arith

/-! `CheckAndAddTimestamps` of package `oracle`: the statements of one transaction at
the level `SERIALIZABLE`, which is snapshot isolation, and the database they work on.
A statement may also fail for a reason of its own. -/

set_option autoImplicit false

namespace Rlaas.Store.Oracle

open Go Effect Snapshot

/-- A row of `rlaas_timestamps`. -/
structure Entry where
  key : String
  ts : Int
  expiresAt : Option Int
  deriving DecidableEq

inductive TxOp where
  | begin (tx : Nat)
  /-- `DELETE ... WHERE key = :1 AND ts < :2` -/
  | deleteBefore (tx : Nat) (key : String) (cutoff : Int)
  /-- `SELECT COUNT(*) ... WHERE key = :1 AND ts >= :2` -/
  | countFrom (tx : Nat) (key : String) (cutoff : Int)
  | insert (tx : Nat) (entry : Entry)
  | commit (tx : Nat)
  | rollback (tx : Nat)

@[reducible] def TxRes : TxOp → Type
  | .begin _ => Except String Unit
  | .deleteBefore .. => Except String Unit
  | .countFrom .. => Except String Int
  | .insert .. => Except String Unit
  | .commit _ => Except String Unit
  | .rollback _ => Unit

abbrev Transaction := Program TxOp TxRes (Except String (Int × Bool))

/-- Every return after `BeginTx` runs the deferred `tx.Rollback()`. -/
def leave (tx : Nat) (result : Except String (Int × Bool)) : Transaction :=
  .call (.rollback tx) fun _ => .done result

/-- The loop over the `cost` rows. -/
def insertRows (tx : Nat) (entry : Entry) (after : Transaction) : Nat → Transaction
  | 0 => after
  | n + 1 =>
      .call (.insert tx entry) fun result =>
        match result with
        | .error err => leave tx (.error ("check-and-add insert: " ++ err))
        | .ok _ => insertRows tx entry after n

/-- What follows the count. -/
def addRows (A : Arith) (tx : Nat) (limit cost : Int) (entry : Entry) (count : Int) : Transaction :=
  if A.wrap (count + cost) > limit then
    .call (.commit tx) fun _ => leave tx (.ok (count, false))
  else
    insertRows tx entry
      (.call (.commit tx) fun result =>
        match result with
        | .error err => leave tx (.error err)
        | .ok _ => leave tx (.ok (count, true)))
      cost.toNat

/-- What follows `BeginTx`; the error of the `DELETE` is not looked at. -/
def trimAndAdd (A : Arith) (tx : Nat) (cutoff limit cost : Int) (entry : Entry) : Transaction :=
  .call (.deleteBefore tx entry.key cutoff) fun _ =>
    .call (.countFrom tx entry.key cutoff) fun result =>
      match result with
      | .error err => leave tx (.error ("check-and-add count: " ++ err))
      | .ok count => addRows A tx limit cost entry count

def checkAndAddTimestamps (A : Arith) (tx : Nat) (key : String) (cutoff limit cost ts : Int)
    (exp : Option Int) : Transaction :=
  .call (.begin tx) fun result =>
    match result with
    | .error err => .done (.error ("check-and-add begin: " ++ err))
    | .ok _ => trimAndAdd A tx cutoff limit cost ⟨key, ts, exp⟩

structure Database where
  table : Table Entry
  sessions : Nat → Option (Session Entry)

namespace Database

def onKey (key : String) (test : Int → Bool) (entry : Entry) : Bool :=
  entry.key == key && test entry.ts

/-- The rows of a key that the count of a call sees, and those it deletes. -/
def recent (key : String) (cutoff : Int) : Entry → Bool := onKey key fun ts => cutoff ≤ ts

def stale (key : String) (cutoff : Int) : Entry → Bool := onKey key fun ts => ts < cutoff

def withSession (tx : Nat) (session : Option (Session Entry)) (db : Database) : Database :=
  { db with sessions := Function.update db.sessions tx session }

def txDone : String := "sql: transaction has already been committed or rolled back"

def statement {β : Type} (fault : Option String) (tx : Nat)
    (execute : Session Entry → β × Session Entry) (db : Database) : Except String β × Database :=
  match fault, db.sessions tx with
  | some err, _ => (.error err, db)
  | none, none => (.error txDone, db)
  | none, some session => (.ok (execute session).1, db.withSession tx (some (execute session).2))

def perform (fault : Option String) : (op : TxOp) → Database → TxRes op × Database
  | .begin tx, db =>
      match fault with
      | some err => (.error err, db)
      | none => (.ok (), db.withSession tx (some (.start db.table)))
  | .deleteBefore tx key cutoff, db =>
      db.statement fault tx fun session => ((), session.delete (stale key cutoff))
  | .countFrom tx key cutoff, db =>
      db.statement fault tx fun session => ((session.count (recent key cutoff) : Int), session)
  | .insert tx entry, db => db.statement fault tx fun session => ((), session.insert entry)
  | .commit tx, db =>
      match fault, db.sessions tx with
      | _, none => (.error txDone, db)
      | some err, some _ => (.error err, db.withSession tx none)
      | none, some session =>
          match session.commit db.table with
          | none => (.error "ORA-08177", db.withSession tx none)
          | some table => (.ok (), { db.withSession tx none with table })
  | .rollback tx, db => ((), db.withSession tx none)

end Database

end Rlaas.Store.Oracle
