import Rlaas.Store.Slots
import Rlaas.Store.Sql

/-! The stores of packages `postgres` and `oracle` keep the slots a counter store is for, as
long as TTLs are positive and times are whole microseconds, which the columns keep as they are. -/

set_option autoImplicit false

namespace Rlaas.Store.Sql

open Go Effect Expiring Postgres

section Rows

open RowLock.Cell (perform found latest write publish release)

variable {now : Int} {row : Option Row} {ttl : Duration}

theorem get_some (now value : Int) (expires : Option Int) :
    Postgres.get now (some ⟨value, expires⟩) = lasting value expires now := by
  rw [Postgres.get, Option.filter_some, lasting]
  change Option.elim (if expires.all (now ≤ ·) = true then _ else none) 0 Row.value = _
  split_ifs
  · rfl
  · rfl

theorem get_written (now time value : Int) (lasting : (0 : Int) < ttl) :
    Postgres.get time (some ⟨value, expiresAt now ttl⟩) = armed value (now + ttl) time := by
  rw [get_some, expiresAt, if_neg (not_le.mpr lasting), lasting_some]

theorem clock_id (now : Int) (ttl : Duration) : clock id now ttl = now := add_sub_cancel_right now ttl

theorem onRow_compareAndSwap (now clock oldVal newVal : Int) (ttl : Duration) (row : Option Row) :
    onRow now (Postgres.compareAndSwap clock 0 oldVal newVal ttl) row =
      if Postgres.get now row = oldVal then (.ok true, some ⟨newVal, expiresAt clock ttl⟩)
      else (.ok false, row) := by
  cases seen : row.filter (Row.live now) with
  | none =>
      have zero : Postgres.get now row = 0 := by rw [Postgres.get, seen]; rfl
      rw [zero]
      by_cases expected : oldVal = 0
      · simp [onRow, Postgres.compareAndSwap, Program.exec, perform, found, latest, seen,
          expected, commitOk, leave, write, publish, release]
      · have refused : ¬(0 : Int) = oldVal := fun same => expected same.symm
        simp [onRow, Postgres.compareAndSwap, Program.exec, perform, found, latest, seen,
          expected, refused, leave, release]
  | some current =>
      have value : Postgres.get now row = current.value := by rw [Postgres.get, seen]; rfl
      obtain rfl : row = some current := (Option.filter_eq_some_iff.mp seen).1
      rw [value]
      by_cases expected : current.value = oldVal
      · simp [onRow, Postgres.compareAndSwap, Program.exec, perform, found, latest, seen,
          expected, commitOk, leave, write, publish, release]
      · simp [onRow, Postgres.compareAndSwap, Program.exec, perform, found, latest, seen,
          expected, leave, release]

theorem onRow_acquireLease (now clock : Int) {limit : Int} (positive : 0 < limit) (ttl : Duration)
    (row : Option Row) :
    onRow now (Postgres.acquireLease clock 0 limit ttl) row =
      if Postgres.get now row ≥ limit then (.ok (false, Postgres.get now row), row)
      else (.ok (true, Postgres.get now row + 1),
        some ⟨Postgres.get now row + 1, expiresAt clock ttl⟩) := by
  cases seen : row.filter (Row.live now) with
  | none =>
      have zero : Postgres.get now row = 0 := by rw [Postgres.get, seen]; rfl
      rw [zero, if_neg (not_le.mpr positive)]
      simp [onRow, Postgres.acquireLease, Program.exec, perform, found, latest, seen,
        not_le.mpr positive, takeLease, leave, write, publish, release]
  | some current =>
      have value : Postgres.get now row = current.value := by rw [Postgres.get, seen]; rfl
      obtain rfl : row = some current := (Option.filter_eq_some_iff.mp seen).1
      rw [value]
      by_cases full : current.value ≥ limit
      · simp [onRow, Postgres.acquireLease, Program.exec, perform, found, latest, seen,
          not_le.mpr positive, full, takeLease, leave, release]
      · simp [onRow, Postgres.acquireLease, Program.exec, perform, found, latest, seen,
          not_le.mpr positive, full, takeLease, leave, write, publish, release]

end Rows

section Slots

/-- The times of the log of a key. -/
def Tables.times (tables : Tables) (key : String) : List Int :=
  (tables.timestamps.filter fun row => row.key == key).map Timestamp.ts

def Tables.slot (tables : Tables) (key : String) : Slot where
  counter time := Postgres.get time (tables.counters key)
  lease time := Postgres.get time (tables.leases key)
  log := tables.times key

variable {A : Arith} {before now : Int} {tables : Tables} {abstract : Slot}
  {key : String}
  {increment : Int → String → Int → Duration → Tables → Except String Int × Tables}

theorem countP_times (key : String) (cutoff : Int) :
    tables.timestamps.countP (recent key cutoff) =
      ((tables.times key).filter fun ts => cutoff ≤ ts).length := by
  rw [← List.countP_eq_length_filter, Tables.times, List.countP_map, List.countP_filter]
  refine List.countP_congr fun row _ => ?_
  rw [recent, Bool.and_comm]
  rfl

theorem row_key (call : LogCall) : call.row.key = call.key := rfl

theorem times_leaves_own (call : LogCall) :
    (tables.checkAndAddTimestamps A call).2.times call.key =
      (tables.times call.key).filter (fun ts => call.cutoff ≤ ts) ++
        if call.allowed A (call.counted tables.timestamps) then
          List.replicate call.cost.toNat call.ts
        else [] := by
  have old : ((tables.timestamps.filter fun row => !stale call.key call.cutoff row).filter
      fun row => row.key == call.key).map Timestamp.ts =
        (tables.times call.key).filter fun ts => call.cutoff ≤ ts := by
    rw [Tables.times, List.filter_map, List.filter_filter, List.filter_filter]
    refine congrArg (List.map Timestamp.ts) (List.filter_congr fun row _ => ?_)
    have late : (!decide (row.ts < call.cutoff)) = decide (call.cutoff ≤ row.ts) := by
      rw [← decide_not]
      exact decide_eq_decide.mpr not_lt
    rw [stale]
    cases row.key == call.key with
    | false => rw [Bool.false_and, Bool.and_false]
    | true => rw [Bool.true_and, Bool.true_and, Bool.and_true, late]; rfl
  rw [Tables.times, Tables.checkAndAddTimestamps, LogCall.leaves, List.filter_append,
    List.map_append, old]
  refine congrArg (List.append _) ?_
  split_ifs
  · rw [List.filter_replicate, row_key, if_pos (beq_self_eq_true call.key),
      List.map_replicate]
    rfl
  · rfl

theorem times_leaves_other (A : Arith) (tables : Tables) (call : LogCall)
    (different : key ≠ call.key) :
    (tables.checkAndAddTimestamps A call).2.times key =
      tables.times key := by
  have none : (if call.allowed A (call.counted tables.timestamps) then
      List.replicate call.cost.toNat call.row else []).filter (fun row => row.key == key) = [] := by
    rw [List.filter_eq_nil_iff]
    intro row member same
    split_ifs at member
    · rw [(List.mem_replicate.mp member).2] at same
      exact different (beq_iff_eq.mp same).symm
    · cases member
  rw [Tables.times, Tables.checkAndAddTimestamps, LogCall.leaves, List.filter_append, none,
    List.append_nil, List.filter_filter]
  refine congrArg (List.map Timestamp.ts) (List.filter_congr fun row _ => ?_)
  by_cases here : row.key = key
  · have kept : stale call.key call.cutoff row = false := by
      rw [stale, beq_eq_false_iff_ne.mpr (here.symm ▸ different), Bool.false_and]
    rw [kept, Bool.not_false, Bool.and_true]
  · rw [beq_eq_false_iff_ne.mpr here, Bool.false_and]

theorem get_released (time : Int) (row : Option Row) :
    Postgres.get time (row.map fun row => { row with value := max (row.value - 1) 0 }) =
      max (Postgres.get time row - 1) 0 := by
  cases row with
  | none => rfl
  | some row =>
      obtain ⟨value, expires⟩ := row
      rw [Option.map_some, get_some, get_some, lasting, lasting]
      split_ifs
      · rfl
      · rfl

theorem slot_checkAndAddTimestamps (call : LogCall)
    (stands : Slot.Stands before (tables.slot call.key) abstract) (ordered : before ≤ now)
    (ttl : Duration) :
    let meant := abstract.handle A now
      (.checkAndAddTimestamps call.key call.cutoff call.limit call.cost call.ts ttl)
    (.ok (call.answer A tables.timestamps) : Except String (Int × Bool)) = meant.1 ∧
      Slot.Stands now ((tables.checkAndAddTimestamps A call).2.slot call.key) meant.2 := by
  intro meant
  obtain ⟨counter, lease, log, counted⟩ := stands.later ordered
  have trimmed : abstract.log.filter (call.cutoff ≤ ·) =
      ((tables.times call.key).filter fun ts => call.cutoff ≤ ts : List Int) := by
    rw [← log]
    rfl
  have number : ((abstract.log.filter (call.cutoff ≤ ·)).card : Int) =
      call.counted tables.timestamps := by
    rw [trimmed, LogCall.counted, countP_times]
    rfl
  simp only [meant, Slot.handle, number]
  by_cases above : A.wrap (call.counted tables.timestamps + call.cost) > call.limit
  · have refused : call.allowed A (call.counted tables.timestamps) = false :=
      decide_eq_false (not_le.mpr above)
    rw [if_pos above, LogCall.answer, refused]
    refine ⟨rfl, counter, lease, ?_, counted⟩
    change ((tables.checkAndAddTimestamps A call).2.times call.key : Multiset Int) = _
    rw [times_leaves_own, refused, trimmed]
    exact congrArg Multiset.ofList (List.append_nil _)
  · have allowed : call.allowed A (call.counted tables.timestamps) = true :=
      decide_eq_true (not_lt.mp above)
    rw [if_neg above, LogCall.answer, allowed]
    refine ⟨rfl, counter, lease, ?_, counted⟩
    change ((tables.checkAndAddTimestamps A call).2.times call.key : Multiset Int) = _
    rw [times_leaves_own, if_pos allowed, trimmed]
    rfl

theorem agree_written (now value : Int) {ttl : Duration} (long : (0 : Int) < ttl) :
    Agree now (fun time => Postgres.get time (some ⟨value, expiresAt now ttl⟩))
      (armed value (now + ttl)) :=
  fun time _ => get_written now time value long

theorem slot_putCounter (key : String) (row : Option Row) (tables : Tables) :
    (tables.putCounter key row).slot key =
      { tables.slot key with counter := fun time => Postgres.get time row } := by
  simp [Tables.slot, Tables.putCounter, Tables.times]

theorem slot_putLease (key : String) (row : Option Row) (tables : Tables) :
    (tables.putLease key row).slot key =
      { tables.slot key with lease := fun time => Postgres.get time row } := by
  simp [Tables.slot, Tables.putLease, Tables.times]

theorem slot_handle {op : CounterOp} (ordered : before ≤ now) (used : op.Used)
    (stands : Slot.Stands before (tables.slot op.key) abstract) :
    (handle id increment A now op tables).1 = (abstract.handle A now op).1 ∧
      Slot.Stands now ((handle id increment A now op tables).2.slot op.key)
        (abstract.handle A now op).2 := by
  obtain ⟨counter, lease, log, counted⟩ := stands.later ordered
  have count : Postgres.get now (tables.counters op.key) = abstract.counter now :=
    counter now le_rfl
  have leased : Postgres.get now (tables.leases op.key) = abstract.lease now :=
    lease now le_rfl
  cases op with
  | get key => exact ⟨congrArg Except.ok count, counter, lease, log, counted⟩
  | set key value ttl =>
      refine ⟨rfl, ?_⟩
      simp only [handle, Tables.set, CounterOp.key, slot_putCounter, Slot.handle, clock_id]
      exact ⟨agree_written now value used.1, lease, log, counted⟩
  | compareAndSwap key oldVal newVal ttl =>
      simp only [CounterOp.key] at count
      simp only [handle, compareAndSwap, onRow_compareAndSwap, CounterOp.key,
        slot_putCounter, Slot.handle, id, count, clock_id]
      split_ifs
      · exact ⟨rfl, agree_written now newVal used.1, lease, log, counted⟩
      · exact ⟨rfl, counter, lease, log, counted⟩
  | checkAndAddTimestamps key cutoff limit cost ts ttl =>
      exact slot_checkAndAddTimestamps
        ⟨key, cutoff, limit, cost, ts, expiresAt (clock id now ttl) ttl⟩ stands ordered ttl
  | acquireLease key limit ttl =>
      simp only [CounterOp.key] at leased
      simp only [handle, acquireLease, onRow_acquireLease _ _ used.1, CounterOp.key,
        slot_putLease, Slot.handle, id, leased, clock_id]
      rw [if_neg (not_le.mpr used.1)]
      split_ifs
      · exact ⟨rfl, counter, lease, log, counted⟩
      · refine ⟨rfl, counter, agree_written now _ used.2.1, log, fun time => ?_⟩
        have some := counted now
        simp only [armed]
        split_ifs
        · omega
        · exact le_rfl
  | releaseLease key =>
      refine ⟨rfl, ?_⟩
      simp only [handle, Tables.releaseLease, CounterOp.key, slot_putLease, Slot.handle]
      refine ⟨counter, fun time after => ?_, log, fun time => le_max_right _ _⟩
      exact (get_released time _).trans
        (congrArg (fun value => max (value - 1) 0) (lease time after))
  | _ => exact used.elim

theorem slot_handle_other {op : CounterOp} (used : op.Used)
    (different : key ≠ op.key) :
    (handle id increment A now op tables).2.slot key = tables.slot key := by
  have counter : ∀ row, (tables.putCounter op.key row).slot key = tables.slot key := fun row => by
    simp [Tables.slot, Tables.putCounter, Tables.times, different]
  have lease : ∀ row, (tables.putLease op.key row).slot key = tables.slot key := fun row => by
    simp [Tables.slot, Tables.putLease, Tables.times, different]
  cases op with
  | get _ => rfl
  | set _ _ _ => exact counter _
  | compareAndSwap _ _ _ _ => exact counter _
  | checkAndAddTimestamps own cutoff limit cost ts ttl =>
      have kept := times_leaves_other A tables
        ⟨own, cutoff, limit, cost, ts, expiresAt (clock id now ttl) ttl⟩ different
      simp only [handle, Tables.slot, id, kept]
      rfl
  | acquireLease _ _ _ => exact lease _
  | releaseLease _ => exact lease _
  | _ => exact used.elim

/-- Whole microseconds are not rounded. -/
theorem handle_whole {column : Int → Int} (keeps : ∀ time, Whole time → column time = time)
    {op : CounterOp} (whole : Whole now) (used : op.Used) :
    handle column increment A now op tables = handle id increment A now op tables := by
  have expiry : ∀ ttl, Whole ttl → clock column now ttl = clock id now ttl := fun ttl long =>
    congrArg (· - ttl) (keeps _ (dvd_add whole long))
  cases op with
  | get key => simp only [handle, keeps now whole, id]
  | set key value ttl => simp only [handle, expiry ttl used.2]
  | compareAndSwap key oldVal newVal ttl =>
      simp only [handle, keeps now whole, expiry ttl used.2, id]
  | checkAndAddTimestamps key cutoff limit cost ts ttl =>
      simp only [handle, keeps cutoff used.1, keeps ts used.2.1, expiry ttl used.2.2, id]
  | acquireLease key limit ttl => simp only [handle, keeps now whole, expiry ttl used.2.2, id]
  | releaseLease key => rfl
  | _ => exact used.elim

/-- The refinement both packages share. -/
def backend {column : Int → Int} (keeps : ∀ time, Whole time → column time = time)
    (increment : Int → String → Int → Duration → Tables → Except String Int × Tables)
    (A : Arith) : Backend A Tables where
  handle := handle column increment A
  slot := Tables.slot
  refines _ _ _ _ _ ordered modern used stands := by
    rw [handle_whole keeps modern.2 used]
    exact slot_handle ordered used stands
  others _ _ _ _ modern used different := by
    rw [handle_whole keeps modern.2 used]
    exact slot_handle_other used different

end Slots

end Rlaas.Store.Sql
