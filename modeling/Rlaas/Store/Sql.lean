import Rlaas.Store.Counter
import Rlaas.Store.Postgres
import Rlaas.Store.PostgresLog

/-! The stores of packages `postgres` and `oracle`, one call after another: the statements a
method makes, with nothing else in progress and nothing that fails. The clock of the client and
that of the database show the same time, up to the resolution of the database: `column` is what
a column, a parameter or the database's own clock keeps of a time. `Increment`, which no
algorithm calls, may do anything. -/

set_option autoImplicit false

namespace Rlaas.Store.Sql

open Go Effect Postgres Function

/-- The tables `rlaas_counters`, `rlaas_timestamps` and `rlaas_leases`. -/
structure Tables where
  counters : String → Option Row := fun _ => none
  timestamps : List Timestamp := []
  leases : String → Option Row := fun _ => none

namespace Tables

def putCounter (key : String) (row : Option Row) (tables : Tables) : Tables :=
  { tables with counters := update tables.counters key row }

def putLease (key : String) (row : Option Row) (tables : Tables) : Tables :=
  { tables with leases := update tables.leases key row }

/-- `INSERT ... ON CONFLICT DO UPDATE`, or `MERGE`, on the counters. -/
def set (now : Int) (key : String) (value : Int) (ttl : Duration) (tables : Tables) : Tables :=
  tables.putCounter key (some ⟨value, expiresAt now ttl⟩)

def delete (key : String) (tables : Tables) : Tables where
  counters := update tables.counters key none
  timestamps := tables.timestamps.filter fun row => row.key != key
  leases := update tables.leases key none

def addTimestamp (now : Int) (key : String) (ts : Int) (ttl : Duration) (tables : Tables) : Tables :=
  { tables with timestamps := tables.timestamps ++ [⟨key, ts, expiresAt now ttl⟩] }

def countAfter (now : Int) (key : String) (after : Int) (tables : Tables) : Int :=
  (tables.timestamps.countP fun row => recent key after row && unexpired now row.expiresAt : Nat)

def trimBefore (key : String) (before : Int) (tables : Tables) : Tables :=
  { tables with timestamps := tables.timestamps.filter fun row => !stale key before row }

/-- The `DELETE`, the `COUNT` and, below the limit, the `INSERT`s of `CheckAndAddTimestamps`. -/
def checkAndAddTimestamps (A : Arith) (call : LogCall) (tables : Tables) :
    (Int × Bool) × Tables :=
  (call.answer A tables.timestamps,
    { tables with timestamps := call.leaves A tables.timestamps })

/-- `UPDATE rlaas_leases SET value = GREATEST(value - 1, 0)`, whether expired or not. -/
def releaseLease (key : String) (tables : Tables) : Tables :=
  tables.putLease key ((tables.leases key).map fun row => { row with value := max (row.value - 1) 0 })

end Tables

/-- A transaction on the row of a key. -/
def onRow {β : Type} (now : Int) (transaction : Transaction β) (row : Option Row) :
    Except String β × Option Row :=
  let ran := transaction.exec (RowLock.Cell.perform fun _ => Row.live now) (fun _ => none)
    { committed := row }
  (ran.1, ran.2.committed)

def compareAndSwap (now clock : Int) (key : String) (oldVal newVal : Int) (ttl : Duration)
    (tables : Tables) : Except String Bool × Tables :=
  let ran := onRow now (Postgres.compareAndSwap clock 0 oldVal newVal ttl) (tables.counters key)
  (ran.1, tables.putCounter key ran.2)

def acquireLease (now clock : Int) (key : String) (limit : Int) (ttl : Duration) (tables : Tables) :
    Except String (Bool × Int) × Tables :=
  let ran := onRow now (Postgres.acquireLease clock 0 limit ttl) (tables.leases key)
  (ran.1, tables.putLease key ran.2)

/-- The client's clock as it would have to be read for the expiry that the column keeps. -/
def clock (column : Int → Int) (now : Int) (ttl : Duration) : Int := column (now + ttl) - ttl

/-- The methods of both packages, which differ in `Increment` only. -/
def handle (column : Int → Int)
    (increment : Int → String → Int → Duration → Tables → Except String Int × Tables)
    (A : Arith) (now : Int) : (op : CounterOp) → Tables → Except String op.Value × Tables
  | .increment key value ttl, tables => increment now key value ttl tables
  | .get key, tables => (.ok (get (column now) (tables.counters key)), tables)
  | .set key value ttl, tables => (.ok (), tables.set (clock column now ttl) key value ttl)
  | .compareAndSwap key oldVal newVal ttl, tables =>
      compareAndSwap (column now) (clock column now ttl) key oldVal newVal ttl tables
  | .delete key, tables => (.ok (), tables.delete key)
  | .addTimestamp key ts ttl, tables =>
      (.ok (), tables.addTimestamp (clock column now ttl) key (column ts) ttl)
  | .countAfter key after, tables =>
      (.ok (tables.countAfter (column now) key (column after)), tables)
  | .trimBefore key before, tables => (.ok (), tables.trimBefore key (column before))
  | .checkAndAddTimestamps key cutoff limit cost ts ttl, tables =>
      let ran := tables.checkAndAddTimestamps A
        ⟨key, column cutoff, limit, cost, column ts, expiresAt (clock column now ttl) ttl⟩
      (.ok ran.1, ran.2)
  | .acquireLease key limit ttl, tables =>
      acquireLease (column now) (clock column now ttl) key limit ttl tables
  | .releaseLease key, tables => (.ok (), tables.releaseLease key)

end Rlaas.Store.Sql
