import Rlaas.Lib.Pool

/-! One row under `READ COMMITTED` with row locks. A transaction sees the last committed
version of the row, where it is visible to it at all; selecting the row for update
locks it, and writing it waits for another writer. What has been written becomes
the committed version when its transaction commits.

The monitor at the end describes transactions that select the row for update, write at
most once what a rule says for the version they have seen, commit and answer. -/

set_option autoImplicit false

namespace RowLock

open Effect

variable {ρ α : Type}
variable (visible : Nat → ρ → Bool)

structure Cell (ρ : Type) where
  committed : Option ρ
  holder : Option Nat := none
  pending : Option ρ := none

inductive Op (ρ : Type) where
  | begin (tx : Nat)
  | selectForUpdate (tx : Nat)
  /-- `INSERT ... ON CONFLICT DO UPDATE` -/
  | upsert (tx : Nat) (row : ρ)
  | update (tx : Nat) (row : ρ)
  | commit (tx : Nat)
  | rollback (tx : Nat)

@[reducible] def Res : Op ρ → Type
  | .begin _ => Except String Unit
  | .selectForUpdate _ => Except String (Option ρ)
  | .upsert .. => Except String Unit
  | .update .. => Except String Unit
  | .commit _ => Except String Unit
  | .rollback _ => Unit

namespace Cell

/-- The version of the row a transaction works on. -/
def latest (tx : Nat) (cell : Cell ρ) : Option ρ :=
  if cell.holder = some tx then cell.pending.or cell.committed else cell.committed

def found (tx : Nat) (cell : Cell ρ) : Option ρ :=
  (cell.latest tx).filter (visible tx)

def heldByOther (tx : Nat) (cell : Cell ρ) : Bool := cell.holder.any (· != tx)

/-- The statement has to wait for the transaction that holds the row. A select that
matches no row has nothing to wait for. -/
def waits (cell : Cell ρ) : Op ρ → Bool
  | .selectForUpdate tx => cell.heldByOther tx && (cell.found visible tx).isSome
  | .upsert tx _ => cell.heldByOther tx
  | .update tx _ => cell.heldByOther tx
  | _ => false

def write (tx : Nat) (row : ρ) (cell : Cell ρ) : Cell ρ :=
  { cell with holder := some tx, pending := some row }

def release (tx : Nat) (cell : Cell ρ) : Cell ρ :=
  if cell.holder = some tx then { committed := cell.committed } else cell

def publish (tx : Nat) (cell : Cell ρ) : Cell ρ :=
  if cell.holder = some tx then { committed := cell.pending.or cell.committed } else cell

/-- What a statement that does not wait, and its failure, do. A commit that fails has
not taken effect. -/
def perform : Option String → (op : Op ρ) → Cell ρ → Res op × Cell ρ
  | some err, .begin _, cell => (.error err, cell)
  | some err, .selectForUpdate _, cell => (.error err, cell)
  | some err, .upsert .., cell => (.error err, cell)
  | some err, .update .., cell => (.error err, cell)
  | some err, .commit tx, cell => (.error err, cell.release tx)
  | none, .begin _, cell => (.ok (), cell)
  | none, .selectForUpdate tx, cell =>
      match cell.found visible tx with
      | none => (.ok none, cell)
      | some row => (.ok (some row), { cell with holder := some tx })
  | none, .upsert tx row, cell => (.ok (), cell.write tx row)
  | none, .update tx row, cell =>
      (.ok (), if (cell.latest tx).isSome then cell.write tx row else cell)
  | none, .commit tx, cell => (.ok (), cell.publish tx)
  | _, .rollback tx, cell => ((), cell.release tx)

/-- A statement is executed when it need not wait; it may fail at any time. -/
def Proceeds (cell : Cell ρ) {τ : Type} (_ : τ) (_ : Nat) (fault : Option String) (op : Op ρ) :
    Prop :=
  fault ≠ none ∨ cell.waits visible op = false

end Cell

/-- The transactions interleaved, from a row nobody holds. -/
def outcome (threads : List (Program (Op ρ) Res α)) (initial : Option ρ)
    (schedule : List (Nat × Option String)) : Pool (Op ρ) Res α (Cell ρ) (Option String) :=
  (Pool.start threads { committed := initial }).run (Cell.perform visible) schedule

/-- No statement is executed while it has to wait. -/
def Legal (threads : List (Program (Op ρ) Res α)) (initial : Option ρ)
    (schedule : List (Nat × Option String)) : Prop :=
  (Pool.start threads { committed := initial }).Along (Cell.perform visible)
    (fun cell => cell.Proceeds visible) schedule

instance (threads : List (Program (Op ρ) Res α)) (initial : Option ρ)
    (schedule : List (Nat × Option String)) : Decidable (Legal visible threads initial schedule) :=
  haveI : ∀ cell history thread fault op, Decidable (Cell.Proceeds visible cell
      (history : List (Entry (Op ρ) Res (Option String))) thread fault op) :=
    fun _ _ _ _ _ => inferInstanceAs (Decidable (_ ∨ _))
  inferInstanceAs (Decidable (Pool.Along _ _ _ _))

def positive (granted : α → Bool) : Option (Program (Op ρ) Res α) → Bool
  | some (.done result) => granted result
  | _ => false

/-- The transactions that have returned with a positive result. -/
def returned {σ τ : Type} (granted : α → Bool) (pool : Pool (Op ρ) Res α σ τ) : Finset Nat :=
  (Finset.range pool.threads.length).filter fun tx => positive granted pool.threads[tx]? = true

/-- Where a transaction is: with the version it has seen and the one it will write, or
with its answer. -/
inductive Stage (ρ : Type) where
  | idle
  | begun
  | chosen (seen : Option ρ) (row : ρ)
  | written (row : ρ)
  | leaving (answer : Bool)
  | ended (answer : Bool)

/-- The statement a transaction comes to at a stage. -/
inductive Move (tx : Nat) : Stage ρ → Op ρ → Prop where
  | begin : Move tx .idle (.begin tx)
  | select : Move tx .begun (.selectForUpdate tx)
  | upsert {seen : Option ρ} {row : ρ} : Move tx (.chosen seen row) (.upsert tx row)
  | update {seen row : ρ} : Move tx (.chosen (some seen) row) (.update tx row)
  | commit {row : ρ} : Move tx (.written row) (.commit tx)
  | leave {answer : Bool} : Move tx (.leaving answer) (.rollback tx)

/-- Transactions that write what `rule` says for the version they see, and whose result
tells by `granted` whether they have committed it. -/
def watch (rule : Option ρ → Option ρ) (granted : α → Bool) (tx : Nat) :
    Monitor (Op ρ) Res (Stage ρ) α where
  expects _ _ _ := True
  guard := Move tx
  advance
    | .idle, .begin _, .ok _ => .begun
    | .idle, .begin _, .error _ => .ended false
    | .begun, .selectForUpdate _, .ok seen =>
        match rule seen with
        | none => .leaving false
        | some row => .chosen seen row
    | .chosen _ row, .upsert .., .ok _ => .written row
    | .chosen _ row, .update .., .ok _ => .written row
    | .written _, .commit _, .ok _ => .leaving true
    | .leaving answer, .rollback _, _ => .ended answer
    | _, _, _ => .leaving false
  accept
    | .ended answer, result => granted result = answer
    | _, _ => False

theorem accepts_selected {rule : Option ρ → Option ρ} {granted : α → Bool} {tx : Nat}
    {seen : Option ρ} {program : Program (Op ρ) Res α}
    (stops : rule seen = none → (watch rule granted tx).Accepts (.leaving false) program)
    (writes : ∀ row, rule seen = some row →
      (watch rule granted tx).Accepts (.chosen seen row) program) :
    (watch rule granted tx).Accepts
      ((watch rule granted tx).advance .begun (.selectForUpdate tx) (.ok seen)) program := by
  cases choice : rule seen with
  | none =>
      simp only [watch, choice]
      exact stops choice
  | some row =>
      simp only [watch, choice]
      exact writes row choice

end RowLock
