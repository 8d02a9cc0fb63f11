import Rlaas.Store.Memory
import Rlaas.Lib.Pool

/-! What the memory store is for, without shards and locks: a family of
independent cells, one for each key. A store operation is an operation on the
cell of its key, whatever the number of shards. -/

set_option autoImplicit false

namespace Rlaas.Store

open Go Model Effect Function

variable {now : Int}

structure Cell where
  value : ValueItem := {}
  timestamps : List Int := []
  tsExpiry : Int := zeroNanos
  lease : ValueItem := {}

/-- The item a read finds: an expired one reads as the zero item. -/
def ValueItem.live (now : Int) (it : ValueItem) : ValueItem :=
  if it.expired now then {} else it

@[simp] theorem ValueItem.arm_value (now : Int) (ttl : Duration) (it : ValueItem) :
    (it.arm now ttl).value = it.value := by
  unfold arm
  split <;> rfl

theorem ValueItem.live_value_cases (now : Int) (it : ValueItem) :
    (it.live now).value = it.value ∨ (it.live now).value = 0 := by
  unfold live
  split
  · exact .inr rfl
  · exact .inl rfl

theorem ValueItem.live_of_unexpired {it : ValueItem} (fresh : it.expired now = false) :
    it.live now = it := by
  rw [live, fresh]
  rfl

theorem ValueItem.arm_unexpired {now later : Int} {ttl : Duration} {it : ValueItem}
    (fresh : it.expired later = false) (soon : 0 < ttl → later ≤ now + ttl) (value : Int) :
    (ValueItem.arm now ttl { it with value }).expired later = false := by
  unfold arm
  split
  · next lasting => simp [expired, soon lasting]
  · exact fresh

theorem ValueItem.live_live {now later : Int} (ordered : now ≤ later) (it : ValueItem) :
    (it.live now).live later = it.live later := by
  cases stale : it.expired now with
  | false => simp [live, stale]
  | true =>
      have gone : it.expired later = true := by
        simp only [expired, Bool.and_eq_true, decide_eq_true_eq] at stale ⊢
        exact ⟨stale.1, lt_of_lt_of_le stale.2 ordered⟩
      have cleared : it.live now = {} := by simp [live, stale]
      rw [cleared, live, live, gone, ite_self, if_pos rfl]

def kept (cutoff : Int) (log : List Int) : List Int := log.filter fun t => !decide (t < cutoff)

theorem kept_kept {low high : Int} (ordered : low ≤ high) (log : List Int) :
    kept high (kept low log) = kept high log := by
  rw [kept, kept, List.filter_filter]
  refine List.filter_congr fun t _ => ?_
  simp only [Bool.and_eq_left_iff_imp, Bool.not_eq_true', decide_eq_false_iff_not]
  omega

namespace Cell

def handle (A : Arith) (now : Int) : (op : CounterOp) → Cell → Except String op.Value × Cell
  | .increment _ value ttl, cell =>
      let sum := A.wrap ((cell.value.live now).value + value)
      (.ok sum, { cell with value := ValueItem.arm now ttl { cell.value.live now with value := sum } })
  | .get _, cell =>
      (.ok (cell.value.live now).value, { cell with value := cell.value.live now })
  | .set _ value ttl, cell => (.ok (), { cell with value := ValueItem.arm now ttl { value } })
  | .compareAndSwap _ oldVal newVal ttl, cell =>
      if (cell.value.live now).value = oldVal then
        (.ok true, { cell with
          value := ValueItem.arm now ttl { cell.value.live now with value := newVal } })
      else (.ok false, { cell with value := cell.value.live now })
  | .delete _, _ => (.ok (), {})
  | .addTimestamp _ ts ttl, cell =>
      (.ok (), { cell with
        timestamps := (cell.timestamps ++ [ts]).insertionSort (· ≤ ·)
        tsExpiry := if ttl > 0 then now + ttl else cell.tsExpiry })
  | .countAfter _ after, cell =>
      if cell.tsExpiry = zeroNanos ∨ now < cell.tsExpiry then
        (.ok ((kept after cell.timestamps).length : Int), cell)
      else (.ok (0 : Int), { cell with timestamps := [], tsExpiry := zeroNanos })
  | .trimBefore _ before, cell =>
      (.ok (), { cell with timestamps := kept before cell.timestamps })
  | .checkAndAddTimestamps _ cutoff limit cost ts ttl, cell =>
      let log := kept cutoff cell.timestamps
      if A.wrap ((log.length : Int) + cost) > limit then
        (.ok ((log.length : Int), false), { cell with timestamps := log })
      else
        (.ok ((log.length : Int), true), { cell with
          timestamps := (log ++ List.replicate cost.toNat ts).insertionSort (· ≤ ·)
          tsExpiry := if ttl > 0 then now + ttl else cell.tsExpiry })
  | .acquireLease _ limit ttl, cell =>
      if limit ≤ 0 then (.error "limit must be positive", cell)
      else if (cell.lease.live now).value ≥ limit then
        (.ok (false, (cell.lease.live now).value), { cell with lease := cell.lease.live now })
      else
        (.ok (true, (cell.lease.live now).value + 1), { cell with
          lease := ValueItem.arm now ttl
            { cell.lease.live now with value := (cell.lease.live now).value + 1 } })
  | .releaseLease _, cell =>
      (.ok (), { cell with
        lease := if (cell.lease.live now).value > 0 then
            { cell.lease.live now with value := (cell.lease.live now).value - 1 }
          else cell.lease.live now })

theorem checkAndAddTimestamps_eq (A : Arith) (now cutoff limit cost ts : Int) (ttl : Duration)
    (key : String) (cell : Cell) :
    cell.handle A now (.checkAndAddTimestamps key cutoff limit cost ts ttl) =
      if A.wrap ((kept cutoff cell.timestamps).length + cost) > limit then
        (.ok (((kept cutoff cell.timestamps).length : Int), false),
          { cell with timestamps := kept cutoff cell.timestamps })
      else
        (.ok (((kept cutoff cell.timestamps).length : Int), true), { cell with
          timestamps := (kept cutoff cell.timestamps ++
            List.replicate cost.toNat ts).insertionSort (· ≤ ·)
          tsExpiry := if ttl > 0 then now + ttl else cell.tsExpiry }) :=
  rfl

def sweep (now : Int) (cell : Cell) : Cell where
  value := cell.value.live now
  timestamps := if cell.tsExpiry ≠ zeroNanos ∧ cell.tsExpiry < now then [] else cell.timestamps
  tsExpiry := if cell.tsExpiry ≠ zeroNanos ∧ cell.tsExpiry < now then zeroNanos else cell.tsExpiry
  lease := cell.lease.live now

end Cell

/-- The store as its users see it. -/
abbrev Cells := String → Cell

namespace Cells

variable {key : String} {A : Arith}
variable {cells : Cells}

def handle (A : Arith) (now : Int) (op : CounterOp) (cells : Cells) : Except String op.Value × Cells :=
  (((cells op.key).handle A now op).1,
    update cells op.key ((cells op.key).handle A now op).2)

def sweep (now : Int) (cells : Cells) : Cells := fun key => (cells key).sweep now

def env (A : Arith) (time : Time) : (op : EnvOp) → Cells → EnvRes op × Cells
  | .now, cells => (time, cells)
  | .wallClock, cells => (time, cells)
  | .store op, cells => cells.handle A time.nanos op

theorem handle_other {op : CounterOp} (different : key ≠ op.key) (cells : Cells) :
    (cells.handle A now op).2 key = cells key :=
  update_of_ne different _ _

/-- Two families of cells related key by key stay so under an operation that
keeps the cells of its own key related. -/
theorem handle_related {R : String → Cell → Cell → Prop} {op : CounterOp} {left right : Cells}
    (others : ∀ key, R key (left key) (right key))
    (own : R op.key ((left op.key).handle A now op).2 ((right op.key).handle A now op).2)
    (key : String) : R key ((left.handle A now op).2 key) ((right.handle A now op).2 key) := by
  by_cases same : key = op.key
  · subst same
    simpa [handle] using own
  · rw [handle_other same, handle_other same]
    exact others key

/-- What a read leaves: an expired item is removed. -/
def dropExpired (now : Int) (key : String) (cells : Cells) : Cells :=
  update cells key { cells key with value := (cells key).value.live now }

theorem dropExpired_value_self (now : Int) (key : String) (cells : Cells) :
    (cells.dropExpired now key key).value = (cells key).value.live now := by
  rw [dropExpired, update_self]

theorem dropExpired_other (now : Int) {key other : String} (different : other ≠ key)
    (cells : Cells) : cells.dropExpired now key other = cells other :=
  update_of_ne different _ _

theorem dropExpired_of_fresh (fresh : (cells key).value.expired now = false) :
    cells.dropExpired now key = cells := by
  rw [dropExpired, ValueItem.live_of_unexpired fresh, update_eq_self]

/-- What a successful swap leaves. -/
def store (now : Int) (ttl : Duration) (key : String) (value : Int) (cells : Cells) : Cells :=
  update cells key { cells key with
    value := ValueItem.arm now ttl { (cells key).value.live now with value } }

theorem store_value_self (now : Int) (ttl : Duration) (key : String) (value : Int) (cells : Cells) :
    (cells.store now ttl key value key).value =
      ValueItem.arm now ttl { (cells key).value.live now with value } := by
  rw [store, update_self]

theorem store_other (now : Int) (ttl : Duration) {key other : String} (different : other ≠ key)
    (value : Int) (cells : Cells) : cells.store now ttl key value other = cells other :=
  update_of_ne different _ _

theorem get_eq (A : Arith) (now : Int) (key : String) (cells : Cells) :
    cells.handle A now (.get key) =
      (.ok ((cells key).value.live now).value, cells.dropExpired now key) :=
  rfl

theorem get_of_fresh (fresh : (cells key).value.expired now = false) :
    cells.handle A now (.get key) = (.ok (cells key).value.value, cells) := by
  refine Prod.ext ?_ ?_
  · simp [handle, Cell.handle, CounterOp.key, ValueItem.live, fresh]
  · simp [handle, Cell.handle, CounterOp.key, ValueItem.live, fresh]

theorem get_value_of_fresh (fresh : (cells key).value.expired now = false) (other : String) :
    ((cells.handle A now (.get other)).2 key).value = (cells key).value := by
  by_cases same : other = key
  · rw [same, get_of_fresh fresh]
  · have different : key ≠ (CounterOp.get other).key := Ne.symm same
    rw [handle_other different]

theorem get_value_cases (now : Int) (key other : String) (cells : Cells) :
    ((cells.handle A now (.get other)).2 key).value.value = (cells key).value.value ∨
      ((cells.handle A now (.get other)).2 key).value.value = 0 := by
  by_cases same : key = other
  · rw [same]
    simpa [handle, Cell.handle, CounterOp.key] using (cells other).value.live_value_cases now
  · have different : key ≠ (CounterOp.get other).key := same
    exact .inl (by rw [handle_other different])

theorem compareAndSwap_eq (A : Arith) (now oldVal newVal : Int) (ttl : Duration) (key : String)
    (cells : Cells) :
    cells.handle A now (.compareAndSwap key oldVal newVal ttl) =
      if ((cells key).value.live now).value = oldVal then
        (.ok true, update cells key { cells key with
          value := ValueItem.arm now ttl { (cells key).value.live now with value := newVal } })
      else
        (.ok false, update cells key { cells key with
          value := (cells key).value.live now }) := by
  by_cases same : ((cells key).value.live now).value = oldVal
  · simp [handle, Cell.handle, CounterOp.key, same]
  · simp [handle, Cell.handle, CounterOp.key, same]

theorem compareAndSwap_of_fresh {now oldVal newVal : Int} {ttl : Duration}
    (fresh : (cells key).value.expired now = false) :
    cells.handle A now (.compareAndSwap key oldVal newVal ttl) =
      if (cells key).value.value = oldVal then
        (.ok true, update cells key { cells key with
          value := ValueItem.arm now ttl { (cells key).value with value := newVal } })
      else (.ok false, cells) := by
  have unexpired : (cells key).value.live now = (cells key).value := by
    simp [ValueItem.live, fresh]
  rw [compareAndSwap_eq, unexpired, update_eq_self]

theorem checkAndAddTimestamps_eq (A : Arith) (now cutoff limit cost ts : Int) (ttl : Duration)
    (key : String) (cells : Cells) :
    cells.handle A now (.checkAndAddTimestamps key cutoff limit cost ts ttl) =
      if A.wrap ((kept cutoff (cells key).timestamps).length + cost) > limit then
        (.ok (((kept cutoff (cells key).timestamps).length : Int), false),
          update cells key { cells key with
            timestamps := kept cutoff (cells key).timestamps })
      else
        (.ok (((kept cutoff (cells key).timestamps).length : Int), true),
          update cells key { cells key with
            timestamps := (kept cutoff (cells key).timestamps ++
              List.replicate cost.toNat ts).insertionSort (· ≤ ·)
            tsExpiry := if ttl > 0 then now + ttl else (cells key).tsExpiry }) := by
  rw [handle, CounterOp.key, Cell.checkAndAddTimestamps_eq]
  split
  · rfl
  · rfl

end Cells

namespace MemoryShard

def cell (shard : MemoryShard) (key : String) : Cell where
  value := shard.values key
  timestamps := shard.timestamps key
  tsExpiry := shard.tsExpiry key
  lease := shard.leases key

@[simp] theorem cell_putValue (shard : MemoryShard) (key : String) (it : ValueItem) :
    (shard.putValue key it).cell = update shard.cell key { shard.cell key with value := it } := by
  funext other
  by_cases same : other = key
  · subst other; simp [cell, putValue]
  · simp [cell, putValue, same]

@[simp] theorem cell_putTimestamps (shard : MemoryShard) (key : String) (arr : List Int) :
    (shard.putTimestamps key arr).cell =
      update shard.cell key { shard.cell key with timestamps := arr } := by
  funext other
  by_cases same : other = key
  · subst other; simp [cell, putTimestamps]
  · simp [cell, putTimestamps, same]

@[simp] theorem cell_putTsExpiry (shard : MemoryShard) (key : String) (expiry : Int) :
    (shard.putTsExpiry key expiry).cell =
      update shard.cell key { shard.cell key with tsExpiry := expiry } := by
  funext other
  by_cases same : other = key
  · subst other; simp [cell, putTsExpiry]
  · simp [cell, putTsExpiry, same]

@[simp] theorem cell_putLease (shard : MemoryShard) (key : String) (it : ValueItem) :
    (shard.putLease key it).cell = update shard.cell key { shard.cell key with lease := it } := by
  funext other
  by_cases same : other = key
  · subst other; simp [cell, putLease]
  · simp [cell, putLease, same]

theorem getValueLocked_spec (now : Int) (key : String) (shard : MemoryShard) :
    (shard.getValueLocked now key).1 = (shard.cell key).value.live now ∧
      (shard.getValueLocked now key).2.cell =
        update shard.cell key { shard.cell key with value := (shard.cell key).value.live now } := by
  unfold getValueLocked ValueItem.live
  cases stale : (shard.values key).expired now with
  | true => simp [cell, stale]
  | false =>
      refine ⟨by simp [cell, stale], ?_⟩
      simp [cell, stale]

theorem getLeaseLocked_spec (now : Int) (key : String) (shard : MemoryShard) :
    (shard.getLeaseLocked now key).1 = (shard.cell key).lease.live now ∧
      (shard.getLeaseLocked now key).2.cell =
        update shard.cell key { shard.cell key with lease := (shard.cell key).lease.live now } := by
  unfold getLeaseLocked ValueItem.live
  cases stale : (shard.leases key).expired now with
  | true => simp [cell, stale]
  | false =>
      refine ⟨by simp [cell, stale], ?_⟩
      simp [cell, stale]

theorem handle_cell (A : Arith) (now : Int) (op : CounterOp) (shard : MemoryShard) :
    (shard.handle A now op).1 = ((shard.cell op.key).handle A now op).1 ∧
      (shard.handle A now op).2.cell =
        update shard.cell op.key ((shard.cell op.key).handle A now op).2 := by
  cases op with
  | increment key value ttl =>
      obtain ⟨read, stored⟩ := getValueLocked_spec now key shard
      simp [handle, increment, Cell.handle, CounterOp.key, stored, read]
  | get key =>
      obtain ⟨read, stored⟩ := getValueLocked_spec now key shard
      simp [handle, get, Cell.handle, CounterOp.key, stored, read]
  | set key value ttl => simp [handle, set, Cell.handle, CounterOp.key]
  | compareAndSwap key oldVal newVal ttl =>
      obtain ⟨read, stored⟩ := getValueLocked_spec now key shard
      by_cases same : ((shard.cell key).value.live now).value = oldVal
      · simp [handle, compareAndSwap, Cell.handle, CounterOp.key, stored, read, same]
      · simp [handle, compareAndSwap, Cell.handle, CounterOp.key, stored, read, same]
  | delete key => simp [handle, delete, Cell.handle, CounterOp.key]
  | addTimestamp key ts ttl =>
      by_cases armed : ttl > 0
      · simp [handle, addTimestamp, Cell.handle, CounterOp.key, armed]
        rfl
      · simp [handle, addTimestamp, Cell.handle, CounterOp.key, armed]
        rfl
  | countAfter key after =>
      by_cases fresh : shard.tsExpiry key = zeroNanos ∨ now < shard.tsExpiry key
      · simp [handle, countAfter, cleanTSLocked, Cell.handle, CounterOp.key, fresh, cell, kept]
      · have emptied : (shard.cleanTSLocked now key).timestamps key = [] := by
          simp [cleanTSLocked, fresh, putTsExpiry, putTimestamps]
        have stale : ¬((shard.cell key).tsExpiry = zeroNanos ∨ now < (shard.cell key).tsExpiry) := fresh
        simp [handle, countAfter, emptied, Cell.handle, CounterOp.key, stale]
        simp [cleanTSLocked, fresh]
  | trimBefore key before => simp [handle, trimBefore, Cell.handle, CounterOp.key, cell, kept]
  | checkAndAddTimestamps key cutoff limit cost ts ttl =>
      have same : (shard.cell key).timestamps = shard.timestamps key := rfl
      by_cases above : limit < A.wrap
          ((((shard.timestamps key).filter fun t => !decide (t < cutoff)).length : Int) + cost)
      · simp [handle, checkAndAddTimestamps, Cell.handle, CounterOp.key, same, kept, above]
      · by_cases armed : 0 < ttl
        · simp [handle, checkAndAddTimestamps, Cell.handle, CounterOp.key, same, kept, above, armed]
        · simp [handle, checkAndAddTimestamps, Cell.handle, CounterOp.key, same, kept, above, armed]
  | acquireLease key limit ttl =>
      obtain ⟨read, stored⟩ := getLeaseLocked_spec now key shard
      by_cases invalid : limit ≤ 0
      · simp [handle, acquireLease, Cell.handle, CounterOp.key, invalid]
      · by_cases full : ((shard.cell key).lease.live now).value ≥ limit
        · simp [handle, acquireLease, Cell.handle, CounterOp.key, stored, read, invalid, full]
        · simp [handle, acquireLease, Cell.handle, CounterOp.key, stored, read, invalid, full]
  | releaseLease key =>
      obtain ⟨read, stored⟩ := getLeaseLocked_spec now key shard
      simp [handle, releaseLease, Cell.handle, CounterOp.key, stored, read]

end MemoryShard

namespace MemoryStore

def cells (store : MemoryStore) : Cells := fun key => (store.shards (store.shardFor key)).cell key

/-- The sharded store refines the family of cells: same answers, and the cell
of the key changes as the cell operation says while every other one, in
whatever shard it lies, stays as it was. -/
theorem handle_cells (A : Arith) (now : Int) (op : CounterOp) (store : MemoryStore) :
    store.cells.handle A now op =
      ((store.handle A now op).1, (store.handle A now op).2.cells) := by
  obtain ⟨answer, changed⟩ :=
    MemoryShard.handle_cell A now op (store.shards (store.shardFor op.key))
  refine Prod.ext answer.symm ?_
  funext key
  change _ = ((update store.shards (store.shardFor op.key)
    ((store.shards (store.shardFor op.key)).handle A now op).2) (store.shardFor key)).cell key
  by_cases same : store.shardFor key = store.shardFor op.key
  · rw [same, update_self, changed]
    by_cases own : key = op.key
    · subst own
      simp [Cells.handle, cells]
    · simp [Cells.handle, cells, own, same]
  · have other : key ≠ op.key := fun equal => same (by rw [equal])
    simp [Cells.handle, cells, other, same]

theorem cells_handle (A : Arith) (now : Int) (op : CounterOp) (store : MemoryStore) :
    (store.handle A now op).2.cells = (store.cells.handle A now op).2 :=
  (congrArg Prod.snd (handle_cells A now op store)).symm

theorem handle_own (A : Arith) (now : Int) (op : CounterOp) (store : MemoryStore) :
    (store.handle A now op).1 = ((store.cells op.key).handle A now op).1 ∧
      (store.handle A now op).2.cells op.key = ((store.cells op.key).handle A now op).2 := by
  refine ⟨(congrArg Prod.fst (handle_cells A now op store)).symm, ?_⟩
  rw [cells_handle]
  exact update_self _ _ _

/-- The live leases under a key decide the answer. -/
theorem acquireLease_answer (A : Arith) (now : Int) (key : String) {limit : Int}
    (positive : 0 < limit) (ttl : Duration) (store : MemoryStore) :
    (store.handle A now (.acquireLease key limit ttl)).1 =
      if ((store.cells key).lease.live now).value < limit then
        .ok (true, ((store.cells key).lease.live now).value + 1)
      else .ok (false, ((store.cells key).lease.live now).value) := by
  rw [(handle_own A now (.acquireLease key limit ttl) store).1]
  by_cases free : ((store.cells key).lease.live now).value < limit
  · simp [Cell.handle, CounterOp.key, not_le.mpr positive, not_le.mpr free, free]
  · simp [Cell.handle, CounterOp.key, not_le.mpr positive, not_lt.mp free, free]

theorem acquireLease_lease (A : Arith) (now : Int) (key : String) {limit : Int}
    (positive : 0 < limit) (ttl : Duration) (store : MemoryStore) :
    ((store.handle A now (.acquireLease key limit ttl)).2.cells key).lease =
      if ((store.cells key).lease.live now).value < limit then
        ValueItem.arm now ttl { (store.cells key).lease.live now with
          value := ((store.cells key).lease.live now).value + 1 }
      else (store.cells key).lease.live now := by
  refine (congrArg Cell.lease (handle_own A now (.acquireLease key limit ttl) store).2).trans ?_
  by_cases free : ((store.cells key).lease.live now).value < limit
  · simp [Cell.handle, CounterOp.key, not_le.mpr positive, not_le.mpr free, free]
  · simp [Cell.handle, CounterOp.key, not_le.mpr positive, not_lt.mp free, free]

theorem releaseLease_lease (A : Arith) (now : Int) (key : String) (store : MemoryStore) :
    ((store.handle A now (.releaseLease key)).2.cells key).lease =
      if ((store.cells key).lease.live now).value > 0 then
        { (store.cells key).lease.live now with
          value := ((store.cells key).lease.live now).value - 1 }
      else (store.cells key).lease.live now :=
  congrArg Cell.lease (handle_own A now (.releaseLease key) store).2

theorem checkAndAddTimestamps_answer (A : Arith) (now cutoff limit cost ts : Int) (ttl : Duration)
    (key : String) (store : MemoryStore) :
    (store.handle A now (.checkAndAddTimestamps key cutoff limit cost ts ttl)).1 =
      .ok (((kept cutoff (store.cells key).timestamps).length : Int),
        !decide (A.wrap ((kept cutoff (store.cells key).timestamps).length + cost) > limit)) := by
  refine (handle_own A now (.checkAndAddTimestamps key cutoff limit cost ts ttl) store).1.trans ?_
  rw [Cell.checkAndAddTimestamps_eq, CounterOp.key]
  by_cases above : A.wrap ((kept cutoff (store.cells key).timestamps).length + cost) > limit
  · rw [if_pos above, decide_eq_true above]
    rfl
  · rw [if_neg above, decide_eq_false above]
    rfl

theorem checkAndAddTimestamps_timestamps (A : Arith) (now cutoff limit cost ts : Int)
    (ttl : Duration) (key : String) (store : MemoryStore) :
    ((store.handle A now (.checkAndAddTimestamps key cutoff limit cost ts ttl)).2.cells
        key).timestamps =
      if A.wrap ((kept cutoff (store.cells key).timestamps).length + cost) > limit then
        kept cutoff (store.cells key).timestamps
      else (kept cutoff (store.cells key).timestamps ++
        List.replicate cost.toNat ts).insertionSort (· ≤ ·) := by
  refine (congrArg Cell.timestamps
    (handle_own A now (.checkAndAddTimestamps key cutoff limit cost ts ttl) store).2).trans ?_
  rw [Cell.checkAndAddTimestamps_eq, CounterOp.key]
  by_cases above : A.wrap ((kept cutoff (store.cells key).timestamps).length + cost) > limit
  · rw [if_pos above, if_pos above]
  · rw [if_neg above, if_neg above]

theorem env_cells (A : Arith) (time : Time) (op : EnvOp) (store : MemoryStore) :
    Cells.env A time op store.cells =
      ((MemoryStore.env A time op store).1, (MemoryStore.env A time op store).2.cells) := by
  cases op with
  | now => rfl
  | wallClock => rfl
  | store op => exact handle_cells A time.nanos op store

theorem sweep_cells (now : Int) (store : MemoryStore) :
    (store.sweep now).cells = store.cells.sweep now := rfl

theorem newSharded_cells (shardCount : Int) : (newSharded shardCount).cells = fun _ => {} := rfl

theorem exec_cells {α : Type} (A : Arith) (program : Evaluation α) (clock : Nat → Time)
    (store : MemoryStore) :
    program.exec (Cells.env A) clock store.cells =
      ((program.exec (MemoryStore.env A) clock store).1,
        (program.exec (MemoryStore.env A) clock store).2.cells) :=
  Program.exec_map cells (fun time op store => env_cells A time op store) program clock store

theorem run_cells {α : Type} (A : Arith) (threads : List (Evaluation α)) (store : MemoryStore)
    (schedule : List (Nat × Time)) :
    (Pool.start threads store.cells).run (Cells.env A) schedule =
      ((Pool.start threads store).run (MemoryStore.env A) schedule).view cells :=
  Pool.run_view cells (env_cells A) schedule (Pool.start threads store)

end MemoryStore

end Rlaas.Store
