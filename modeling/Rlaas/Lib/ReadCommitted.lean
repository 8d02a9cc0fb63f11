import Rlaas.Lib.Pool
import Rlaas.Lib.Snapshot

/-! Transactions under `READ COMMITTED` with advisory locks. A statement sees the rows that
are committed when it is executed and what its own transaction has done. A lock is held from
its statement to the end of the transaction; a statement that fails leaves its transaction
aborted, and nothing but its end succeeds from then on.

The second half is about transactions that take a lock, delete rows, count rows, insert what a
rule says for the count, and commit. -/

set_option autoImplicit false

namespace ReadCommitted

open Effect Snapshot

variable {α L β : Type}

/-- What a transaction has done so far. -/
structure Session (α : Type) where
  deleted : List (Nat × α) := []
  inserted : List α := []
  aborted : Bool := false

structure Database (α L : Type) where
  table : Table α
  locks : L → Option Nat
  sessions : Nat → Option (Session α)

inductive Op (α L : Type) where
  | begin (tx : Nat)
  | lock (tx : Nat) (id : L)
  | delete (tx : Nat) (test : α → Bool)
  | count (tx : Nat) (test : α → Bool)
  | insert (tx : Nat) (entry : α)
  | commit (tx : Nat)
  | rollback (tx : Nat)

@[reducible] def Res : Op α L → Type
  | .begin _ => Except String Unit
  | .lock .. => Except String Unit
  | .delete .. => Except String Unit
  | .count .. => Except String Int
  | .insert .. => Except String Unit
  | .commit _ => Except String Unit
  | .rollback _ => Unit

namespace Session

variable [DecidableEq α]

/-- The rows a statement sees beside those its transaction has inserted. -/
def seen (table : Table α) (session : Session α) : List (Nat × α) :=
  (table.remove session.deleted).rows

def delete (table : Table α) (test : α → Bool) (session : Session α) : Session α :=
  { session with
    deleted := session.deleted ++ (session.seen table).filter fun row => test row.2
    inserted := session.inserted.filter fun entry => !test entry }

def count (table : Table α) (test : α → Bool) (session : Session α) : Int :=
  ((session.seen table).countP (fun row => test row.2) + session.inserted.countP test : Nat)

def insert (entry : α) (session : Session α) : Session α :=
  { session with inserted := session.inserted ++ [entry] }

/-- Rows that another transaction has deleted meanwhile are not there to be deleted. -/
def apply (table : Table α) (session : Session α) : Table α :=
  (table.remove session.deleted).append session.inserted

end Session

namespace Database

variable [DecidableEq L]

def start (table : Table α) : Database α L where
  table
  locks _ := none
  sessions _ := none

def withSession (tx : Nat) (session : Option (Session α)) (db : Database α L) : Database α L :=
  { db with sessions := Function.update db.sessions tx session }

/-- The end of a transaction releases its locks. -/
def release (tx : Nat) (db : Database α L) : Database α L :=
  { db.withSession tx none with
    locks := fun id => if db.locks id = some tx then none else db.locks id }

def txDone : String := "sql: transaction has already been committed or rolled back"

def txAborted : String := "current transaction is aborted"

/-- A statement of a transaction that is neither over nor aborted; if it fails it aborts the
transaction. -/
def statement {γ : Type} (fault : Option String) (tx : Nat)
    (execute : Session α → γ × Session α × (L → Option Nat)) (db : Database α L) :
    Except String γ × Database α L :=
  match db.sessions tx with
  | none => (.error txDone, db)
  | some session =>
      if session.aborted then (.error txAborted, db)
      else
        match fault with
        | some err => (.error err, db.withSession tx (some { session with aborted := true }))
        | none =>
            (.ok (execute session).1,
              { db.withSession tx (some (execute session).2.1) with locks := (execute session).2.2 })

/-- The statement has to wait for the transaction that holds the lock. -/
def waits (db : Database α L) : Op α L → Bool
  | .lock tx id => (db.locks id).any (· != tx)
  | _ => false

variable [DecidableEq α]

/-- What a statement that does not wait, and its failure, do. A commit that reports an error
has had no effect on the rows: one that takes effect and loses its acknowledgement is not
among the failures. -/
def perform (fault : Option String) : (op : Op α L) → Database α L → Res op × Database α L
  | .begin tx, db =>
      match fault with
      | some err => (.error err, db)
      | none => (.ok (), db.withSession tx (some {}))
  | .lock tx id, db =>
      db.statement fault tx fun session => ((), session, Function.update db.locks id (some tx))
  | .delete tx test, db =>
      db.statement fault tx fun session => ((), session.delete db.table test, db.locks)
  | .count tx test, db =>
      db.statement fault tx fun session => (session.count db.table test, session, db.locks)
  | .insert tx entry, db => db.statement fault tx fun session => ((), session.insert entry, db.locks)
  | .commit tx, db =>
      match db.sessions tx with
      | none => (.error txDone, db)
      | some session =>
          match fault with
          | some err => (.error err, db.release tx)
          | none =>
              if session.aborted then (.error txAborted, db.release tx)
              else (.ok (), { db.release tx with table := session.apply db.table })
  | .rollback tx, db => ((), db.release tx)

/-- A statement is executed when it need not wait; it may fail at any time. -/
def Proceeds (db : Database α L) {τ : Type} (_ : τ) (_ : Nat) (fault : Option String)
    (op : Op α L) : Prop :=
  fault ≠ none ∨ db.waits op = false

end Database

section Interleaved

variable [DecidableEq α] [DecidableEq L]

/-- The transactions interleaved, from committed rows and no locks. -/
def outcome (threads : List (Program (Op α L) Res β)) (table : Table α)
    (schedule : List (Nat × Option String)) :
    Pool (Op α L) Res β (Database α L) (Option String) :=
  (Pool.start threads (.start table)).run Database.perform schedule

/-- No statement is executed while it has to wait. -/
def Legal (threads : List (Program (Op α L) Res β)) (table : Table α)
    (schedule : List (Nat × Option String)) : Prop :=
  (Pool.start threads (.start table)).Along Database.perform (fun db => db.Proceeds) schedule

instance (threads : List (Program (Op α L) Res β)) (table : Table α)
    (schedule : List (Nat × Option String)) : Decidable (Legal threads table schedule) :=
  haveI : ∀ (db : Database α L) (history : List (Entry (Op α L) Res (Option String))) thread fault
      op, Decidable (db.Proceeds history thread fault op) :=
    fun _ _ _ _ _ => inferInstanceAs (Decidable (_ ∨ _))
  inferInstanceAs (Decidable (Pool.Along _ _ _ _))

end Interleaved

/-- A commit that was tried, and whether it succeeded. -/
def tried (tx : Nat) : Event (Op α L) Res → Option (Nat × Bool)
  | ⟨.commit _, .ok _⟩ => some (tx, true)
  | ⟨.commit _, .error _⟩ => some (tx, false)
  | _ => none

def commits {τ : Type} (history : List (Entry (Op α L) Res τ)) : List (Nat × Bool) :=
  history.filterMap fun entry => tried entry.thread entry.event

/-- A transaction about rows of its own, behind a lock. -/
structure Job (α L : Type) where
  lock : L
  mine : α → Bool
  stale : α → Bool
  recent : α → Bool
  /-- What is inserted for the number of recent rows. -/
  rule : Int → Option (List α)
  stale_mine : ∀ entry, stale entry = true → mine entry = true
  recent_mine : ∀ entry, recent entry = true → mine entry = true
  recent_kept : ∀ entry, recent entry = true → stale entry = false
  inserts_mine : ∀ count rows, rule count = some rows → ∀ entry ∈ rows, mine entry = true

namespace Job

variable (job : Job α L)

def counts (entries : List α) : Int := (entries.countP job.recent : Nat)

/-- The rows after the transaction, executed alone. -/
def effect (entries : List α) : List α :=
  entries.filter (fun entry => !job.stale entry) ++ (job.rule (job.counts entries)).getD []

end Job

/-- The transactions that have committed, executed one after another. -/
def replay (jobs : Nat → Job α L) (entries : List α) (committed : List (Nat × Bool)) : List α :=
  committed.foldl (fun entries commit =>
    if commit.2 then (jobs commit.1).effect entries else entries) entries

/-- What a transaction reports: the count, and whether it has inserted. -/
abbrev Report := Option (Int × Bool)

/-- The report is that of the transaction executed where its commit stands. -/
def Placed (jobs : Nat → Job α L) (entries : List α) (committed : List (Nat × Bool)) (tx : Nat) :
    Report → Prop
  | none => ∀ kept, (tx, kept) ∈ committed → kept = false
  | some (count, inserted) => ∃ before kept after, committed = before ++ (tx, kept) :: after ∧
      count = (jobs tx).counts (replay jobs entries before) ∧
      inserted = ((jobs tx).rule count).isSome ∧ (inserted = true → kept = true)

/-- Where a transaction is. -/
inductive Stage (α : Type) where
  | idle
  | begun
  | locked
  | trimmed
  | adding (count : Int) (rest : List α)
  | refusing (count : Int)
  | aborted
  | leaving (report : Report)
  | ended (report : Report)

/-- The rule has been asked what to insert. -/
def Stage.decided (count : Int) : Option (List α) → Stage α
  | none => .refusing count
  | some rows => .adding count rows

inductive Move (job : Job α L) (tx : Nat) : Stage α → Op α L → Prop where
  | begin : Move job tx .idle (.begin tx)
  | lock : Move job tx .begun (.lock tx job.lock)
  | delete : Move job tx .locked (.delete tx job.stale)
  | deleteAborted : Move job tx .aborted (.delete tx job.stale)
  | count : Move job tx .trimmed (.count tx job.recent)
  | countAborted : Move job tx .aborted (.count tx job.recent)
  | insert {count : Int} {entry : α} {rest : List α} :
      Move job tx (.adding count (entry :: rest)) (.insert tx entry)
  | commit {count : Int} : Move job tx (.adding count []) (.commit tx)
  | refuse {count : Int} : Move job tx (.refusing count) (.commit tx)
  | leave {report : Report} : Move job tx (.leaving report) (.rollback tx)

/-- Transactions that do the job and whose result tells what they report. -/
def watch (job : Job α L) (reports : β → Report) (tx : Nat) :
    Monitor (Op α L) Res (Stage α) β where
  expects
    | .aborted, .count .., .ok _ => False
    | _, _, _ => True
  guard := Move job tx
  advance
    | .idle, .begin _, .ok _ => .begun
    | .idle, .begin _, .error _ => .ended none
    | .begun, .lock .., .ok _ => .locked
    | .locked, .delete .., .ok _ => .trimmed
    | .trimmed, .count .., .ok count => .decided count (job.rule count)
    | .adding count (_ :: rest), .insert .., .ok _ => .adding count rest
    | .adding count [], .commit _, .ok _ => .leaving (some (count, true))
    | .refusing count, .commit _, _ => .leaving (some (count, false))
    | .leaving report, .rollback _, _ => .ended report
    | _, .lock .., _ => .aborted
    | _, .delete .., _ => .aborted
    | _, _, _ => .leaving none
  accept
    | .ended report, result => reports result = report
    | _, _ => False

end ReadCommitted
