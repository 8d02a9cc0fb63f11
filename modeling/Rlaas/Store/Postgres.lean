import Rlaas.Lib.RowLock
import Rlaas.Go.Time

/-! `CompareAndSwap` and `AcquireLease` of package `postgres`: the statements of one
transaction on the row of a key. The row counts as missing when it has expired by `NOW()`,
which is the time the transaction began. -/

set_option autoImplicit false

namespace Rlaas.Store.Postgres

open Go Effect RowLock

/-- A row of `rlaas_counters` or `rlaas_leases`. -/
structure Row where
  value : Int
  expiresAt : Option Int
  deriving DecidableEq

/-- `expires_at IS NULL OR expires_at >= NOW()` -/
def unexpired (now : Int) (expires : Option Int) : Bool := expires.all fun at' => now ≤ at'

def Row.live (now : Int) (row : Row) : Bool := unexpired now row.expiresAt

/-- The expiry for a TTL at a reading of the client's clock. -/
def expiresAt (now : Int) (ttl : Duration) : Option Int := if ttl ≤ 0 then none else some (now + ttl)

/-- What `Get` reads. -/
def get (now : Int) (row : Option Row) : Int := (row.filter (Row.live now)).elim 0 Row.value

abbrev Transaction (β : Type) := Program (Op Row) Res (Except String β)

/-- Every return after `BeginTx` runs the deferred `tx.Rollback()`. -/
def leave {β : Type} (tx : Nat) (result : Except String β) : Transaction β :=
  .call (.rollback tx) fun _ => .done result

/-- `return tx.Commit() == nil, nil` -/
def commitOk (tx : Nat) : Transaction Bool :=
  .call (.commit tx) fun result =>
    match result with
    | .error _ => leave tx (.ok false)
    | .ok _ => leave tx (.ok true)

def compareAndSwap (clock : Int) (tx : Nat) (oldVal newVal : Int) (ttl : Duration) :
    Transaction Bool :=
  let exp := expiresAt clock ttl
  .call (.begin tx) fun result =>
    match result with
    | .error err => .done (.error ("cas begin: " ++ err))
    | .ok _ =>
        .call (.selectForUpdate tx) fun result =>
          match result with
          | .ok none =>
              if oldVal ≠ 0 then leave tx (.ok false)
              else
                .call (.upsert tx ⟨newVal, exp⟩) fun result =>
                  match result with
                  | .error err => leave tx (.error ("cas insert: " ++ err))
                  | .ok _ => commitOk tx
          | .error err => leave tx (.error ("cas select: " ++ err))
          | .ok (some row) =>
              if row.value ≠ oldVal then leave tx (.ok false)
              else
                .call (.update tx ⟨newVal, exp⟩) fun result =>
                  match result with
                  | .error err => leave tx (.error ("cas update: " ++ err))
                  | .ok _ => commitOk tx

/-- What follows the select of `AcquireLease`. -/
def takeLease (tx : Nat) (limit cur : Int) (exp : Option Int) : Transaction (Bool × Int) :=
  if cur ≥ limit then leave tx (.ok (false, cur))
  else
    .call (.upsert tx ⟨cur + 1, exp⟩) fun result =>
      match result with
      | .error err => leave tx (.error ("acquire lease upsert: " ++ err))
      | .ok _ =>
          .call (.commit tx) fun result =>
            match result with
            | .error err => leave tx (.error err)
            | .ok _ => leave tx (.ok (true, cur + 1))

def acquireLease (clock : Int) (tx : Nat) (limit : Int) (ttl : Duration) :
    Transaction (Bool × Int) :=
  if limit ≤ 0 then .done (.error "limit must be positive")
  else
    let exp := expiresAt clock ttl
    .call (.begin tx) fun result =>
      match result with
      | .error err => .done (.error ("acquire lease begin: " ++ err))
      | .ok _ =>
          .call (.selectForUpdate tx) fun result =>
            match result with
            | .error err => leave tx (.error ("acquire lease select: " ++ err))
            | .ok none => takeLease tx limit 0 exp
            | .ok (some row) => takeLease tx limit row.value exp

end Rlaas.Store.Postgres
