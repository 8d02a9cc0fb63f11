import Rlaas.Store.Counter
import Mathlib.Data.List.Sort
import Mathlib.Logic.Function.Basic

/-! The in-process counter store of package `memory`. Reading a missing key of
a Go map gives the zero value, so each map is modelled as the function it is
read as, and deleting a key writes the zero value. Every method holds the lock
of one shard; the clock readings it makes under the lock are one reading, `now`. -/

set_option autoImplicit false

namespace Rlaas.Store

open Go Model Effect Function

structure ValueItem where
  value : Int := 0
  expiry : Int := zeroNanos
  deriving DecidableEq

variable (now : Int)

def ValueItem.expired (it : ValueItem) : Bool :=
  decide (it.expiry ≠ zeroNanos) && decide (it.expiry < now)

def ValueItem.arm (ttl : Duration) (it : ValueItem) : ValueItem :=
  if ttl > 0 then { it with expiry := now + ttl } else it

structure MemoryShard where
  values : String → ValueItem
  timestamps : String → List Int
  tsExpiry : String → Int
  leases : String → ValueItem

namespace MemoryShard

def empty : MemoryShard where
  values _ := {}
  timestamps _ := []
  tsExpiry _ := zeroNanos
  leases _ := {}

def putValue (shard : MemoryShard) (key : String) (it : ValueItem) : MemoryShard :=
  { shard with values := update shard.values key it }

def putTimestamps (shard : MemoryShard) (key : String) (arr : List Int) : MemoryShard :=
  { shard with timestamps := update shard.timestamps key arr }

def putTsExpiry (shard : MemoryShard) (key : String) (expiry : Int) : MemoryShard :=
  { shard with tsExpiry := update shard.tsExpiry key expiry }

def putLease (shard : MemoryShard) (key : String) (it : ValueItem) : MemoryShard :=
  { shard with leases := update shard.leases key it }

def getValueLocked (key : String) (shard : MemoryShard) : ValueItem × MemoryShard :=
  if (shard.values key).expired now then ({}, shard.putValue key {})
  else (shard.values key, shard)

def getLeaseLocked (key : String) (shard : MemoryShard) : ValueItem × MemoryShard :=
  if (shard.leases key).expired now then ({}, shard.putLease key {})
  else (shard.leases key, shard)

def cleanTSLocked (key : String) (shard : MemoryShard) : MemoryShard :=
  if shard.tsExpiry key = zeroNanos ∨ now < shard.tsExpiry key then shard
  else (shard.putTimestamps key []).putTsExpiry key zeroNanos

def increment (A : Arith) (now : Int) (key : String) (value : Int) (ttl : Duration)
    (shard : MemoryShard) : Int × MemoryShard :=
  let (it, shard) := shard.getValueLocked now key
  let it := { it with value := A.wrap (it.value + value) }
  (it.value, shard.putValue key (it.arm now ttl))

def get (key : String) (shard : MemoryShard) : Int × MemoryShard :=
  let (it, shard) := shard.getValueLocked now key
  (it.value, shard)

def set (key : String) (value : Int) (ttl : Duration) (shard : MemoryShard) : MemoryShard :=
  shard.putValue key (ValueItem.arm now ttl { value })

def compareAndSwap (key : String) (oldVal newVal : Int) (ttl : Duration) (shard : MemoryShard) :
    Bool × MemoryShard :=
  let (it, shard) := shard.getValueLocked now key
  if it.value ≠ oldVal then (false, shard)
  else (true, shard.putValue key (ValueItem.arm now ttl { it with value := newVal }))

def delete (key : String) (shard : MemoryShard) : MemoryShard :=
  (((shard.putValue key {}).putTimestamps key []).putTsExpiry key zeroNanos).putLease key {}

def addTimestamp (key : String) (ts : Int) (ttl : Duration) (shard : MemoryShard) :
    MemoryShard :=
  let shard := shard.putTimestamps key ((shard.timestamps key ++ [ts]).insertionSort (· ≤ ·))
  if ttl > 0 then shard.putTsExpiry key (now + ttl) else shard

def countAfter (key : String) (after : Int) (shard : MemoryShard) : Int × MemoryShard :=
  let shard := shard.cleanTSLocked now key
  (((shard.timestamps key).filter fun t => !decide (t < after)).length, shard)

def trimBefore (key : String) (before : Int) (shard : MemoryShard) : MemoryShard :=
  shard.putTimestamps key ((shard.timestamps key).filter fun t => !decide (t < before))

def acquireLease (key : String) (limit : Int) (ttl : Duration) (shard : MemoryShard) :
    Except String (Bool × Int) × MemoryShard :=
  if limit ≤ 0 then (.error "limit must be positive", shard)
  else
    let (it, shard) := shard.getLeaseLocked now key
    if it.value ≥ limit then (.ok (false, it.value), shard)
    else
      -- The count is below the limit here, so adding one cannot overflow.
      let it := ValueItem.arm now ttl { it with value := it.value + 1 }
      (.ok (true, it.value), shard.putLease key it)

def releaseLease (key : String) (shard : MemoryShard) : MemoryShard :=
  let (it, shard) := shard.getLeaseLocked now key
  shard.putLease key (if it.value > 0 then { it with value := it.value - 1 } else it)

def checkAndAddTimestamps (A : Arith) (now : Int) (key : String) (cutoff limit cost ts : Int)
    (ttl : Duration) (shard : MemoryShard) : (Int × Bool) × MemoryShard :=
  let arr := (shard.timestamps key).filter fun t => !decide (t < cutoff)
  let count : Int := arr.length
  if A.wrap (count + cost) > limit then ((count, false), shard.putTimestamps key arr)
  else
    let shard := shard.putTimestamps key
      ((arr ++ List.replicate cost.toNat ts).insertionSort (· ≤ ·))
    ((count, true), if ttl > 0 then shard.putTsExpiry key (now + ttl) else shard)

def handle (A : Arith) (now : Int) :
    (op : CounterOp) → MemoryShard → Except String op.Value × MemoryShard
  | .increment key value ttl, shard =>
      let (value, shard) := shard.increment A now key value ttl
      (.ok value, shard)
  | .get key, shard =>
      let (value, shard) := shard.get now key
      (.ok value, shard)
  | .set key value ttl, shard => (.ok (), shard.set now key value ttl)
  | .compareAndSwap key oldVal newVal ttl, shard =>
      let (swapped, shard) := shard.compareAndSwap now key oldVal newVal ttl
      (.ok swapped, shard)
  | .delete key, shard => (.ok (), shard.delete key)
  | .addTimestamp key ts ttl, shard => (.ok (), shard.addTimestamp now key ts ttl)
  | .countAfter key after, shard =>
      let (count, shard) := shard.countAfter now key after
      (.ok count, shard)
  | .trimBefore key before, shard => (.ok (), shard.trimBefore key before)
  | .checkAndAddTimestamps key cutoff limit cost ts ttl, shard =>
      let (counted, shard) := shard.checkAndAddTimestamps A now key cutoff limit cost ts ttl
      (.ok counted, shard)
  | .acquireLease key limit ttl, shard => shard.acquireLease now key limit ttl
  | .releaseLease key, shard => (.ok (), shard.releaseLease now key)

/-- What `sweep` does to one shard. Its test on timestamp logs has no check for
a zero expiry; a key without one has no entry to visit. -/
def sweep (shard : MemoryShard) : MemoryShard where
  values key := if (shard.values key).expired now then {} else shard.values key
  timestamps key :=
    if shard.tsExpiry key ≠ zeroNanos ∧ shard.tsExpiry key < now then [] else shard.timestamps key
  tsExpiry key :=
    if shard.tsExpiry key ≠ zeroNanos ∧ shard.tsExpiry key < now then zeroNanos
    else shard.tsExpiry key
  leases key := if (shard.leases key).expired now then {} else shard.leases key

end MemoryShard

def fnv32a (text : String) : UInt32 :=
  text.toUTF8.data.toList.foldl (fun hash byte => (hash ^^^ byte.toUInt32) * 16777619) 2166136261

/-- `MemoryStore`; `NewSharded` never makes it empty. -/
structure MemoryStore where
  count : Nat
  positive : 0 < count
  shards : Fin count → MemoryShard

namespace MemoryStore

def newSharded (shardCount : Int) : MemoryStore where
  count := if shardCount ≤ 0 then 1 else shardCount.toNat
  positive := by split <;> omega
  shards _ := .empty

/-- The index computed by `shardFor`. The hash is reduced modulo the shard
count converted to `uint32`. -/
def shardIndex (count : Nat) (key : String) : Nat :=
  if count = 1 then 0 else (fnv32a key).toNat % (count % 2 ^ 32)

theorem shardIndex_lt {count : Nat} (positive : 0 < count) (key : String) :
    shardIndex count key < count := by
  unfold shardIndex
  split
  · exact positive
  · by_cases zero : count % 2 ^ 32 = 0
    · rw [zero, Nat.mod_zero]
      have hashed : (fnv32a key).toNat < 2 ^ 32 := (fnv32a key).toNat_lt
      omega
    · exact lt_of_lt_of_le (Nat.mod_lt _ (Nat.pos_of_ne_zero zero)) (Nat.mod_le _ _)

def shardFor (store : MemoryStore) (key : String) : Fin store.count :=
  ⟨shardIndex store.count key, shardIndex_lt store.positive key⟩

def handle (A : Arith) (now : Int) (op : CounterOp) (store : MemoryStore) :
    Except String op.Value × MemoryStore :=
  let (answer, shard) := (store.shards (store.shardFor op.key)).handle A now op
  (answer, { store with shards := update store.shards (store.shardFor op.key) shard })

def sweep (store : MemoryStore) : MemoryStore :=
  { store with shards := fun index => (store.shards index).sweep now }

/-- Evaluators run against the store with every clock reading taken from the
one clock of the step. -/
def env (A : Arith) (time : Time) : (op : EnvOp) → MemoryStore → EnvRes op × MemoryStore
  | .now, store => (time, store)
  | .wallClock, store => (time, store)
  | .store op, store => store.handle A time.nanos op

end MemoryStore

end Rlaas.Store
