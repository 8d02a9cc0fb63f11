import Rlaas.Store.MemoryCells
import Rlaas.Store.Slots
import Mathlib.Tactic.SplitIfs

/-! The in-process store keeps the slots a counter store is for. -/

set_option autoImplicit false

namespace Rlaas.Store

open Go Model Effect Expiring

namespace ValueItem

/-- What a read returns, by time. -/
def reads (it : ValueItem) : Register := fun time => (it.live time).value

variable {now later : Int} {ttl : Duration} {it : ValueItem}

theorem reads_arm (modern : zeroNanos ≤ now) (lasting : (0 : Int) < ttl) :
    (ValueItem.arm now ttl it).reads = armed it.value (now + ttl) := by
  funext time
  have set : (now + ttl : Int) ≠ zeroNanos := by
    intro same
    omega
  rw [reads, arm, if_pos lasting, live, armed]
  by_cases fresh : time ≤ now + ttl
  · rw [if_pos fresh, if_neg]
    simp [expired, fresh]
  · rw [if_neg fresh, if_pos]
    simp [expired, set, not_le.mp fresh]

/-- A read does not change what later reads return. -/
theorem reads_live (ordered : now ≤ later) : (it.live now).reads later = it.reads later :=
  congrArg ValueItem.value (live_live ordered it)

theorem reads_released (ordered : now ≤ later) (counted : 0 ≤ it.reads now) :
    (if (it.live now).value > 0 then { it.live now with value := (it.live now).value - 1 }
      else it.live now : ValueItem).reads later = max (it.reads later - 1) 0 := by
  have unread : (it.live now).reads later = it.reads later := reads_live ordered
  rw [← unread]
  generalize held : it.live now = item
  have start : 0 ≤ item.value := held ▸ counted
  by_cases gone : item.expired later = true
  · have cleared : ∀ value, ({ item with value } : ValueItem).live later = {} := fun value =>
      if_pos gone
    have zero : item.reads later = 0 := congrArg ValueItem.value (cleared item.value)
    split_ifs
    · rw [zero, reads, cleared]
      rfl
    · rw [zero]
      rfl
  · have same : ∀ value, ({ item with value } : ValueItem).live later = { item with value } :=
      fun value => if_neg gone
    have value : item.reads later = item.value := congrArg ValueItem.value (same item.value)
    rw [value]
    split_ifs with positive
    · rw [reads, same]
      exact (max_eq_left (show 0 ≤ item.value - 1 by omega)).symm
    · rw [value]
      omega

end ValueItem

namespace Cell

def slot (cell : Cell) : Slot where
  counter := cell.value.reads
  lease := cell.lease.reads
  log := cell.timestamps

variable {A : Arith} {before now : Int} {cell : Cell} {abstract : Slot}

theorem slot_checkAndAddTimestamps {key : String} {cutoff limit cost ts : Int} {ttl : Duration}
    (stands : Slot.Stands before cell.slot abstract) (ordered : before ≤ now) :
    let op := .checkAndAddTimestamps key cutoff limit cost ts ttl
    (cell.handle A now op).1 = (abstract.handle A now op).1 ∧
      Slot.Stands now (cell.handle A now op).2.slot (abstract.handle A now op).2 := by
  intro op
  obtain ⟨counter, lease, log, counted⟩ := stands.later ordered
  have trimmed : abstract.log.filter (cutoff ≤ ·) = (kept cutoff cell.timestamps : Multiset Int) := by
    rw [← log]
    refine congrArg Multiset.ofList (List.filter_congr fun ts _ => ?_)
    rw [← decide_not]
    exact decide_eq_decide.mpr not_lt.symm
  have number : (abstract.log.filter (cutoff ≤ ·)).card = (kept cutoff cell.timestamps).length := by
    rw [trimmed]
    rfl
  rw [checkAndAddTimestamps_eq]
  simp only [op, Slot.handle, number]
  by_cases above : A.wrap ((kept cutoff cell.timestamps).length + cost) > limit
  · rw [if_pos above, if_pos above]
    exact ⟨rfl, counter, lease, trimmed.symm, counted⟩
  · rw [if_neg above, if_neg above]
    refine ⟨rfl, counter, lease, ?_, counted⟩
    rw [trimmed]
    exact Multiset.coe_eq_coe.mpr (List.perm_insertionSort _ _)

theorem slot_handle {op : CounterOp} (ordered : before ≤ now) (modern : Modern now)
    (used : op.Used) (stands : Slot.Stands before cell.slot abstract) :
    (cell.handle A now op).1 = (abstract.handle A now op).1 ∧
      Slot.Stands now (cell.handle A now op).2.slot (abstract.handle A now op).2 := by
  have reached := stands.later ordered
  obtain ⟨counter, lease, log, counted⟩ := reached
  have count : (cell.value.live now).value = abstract.counter now := counter now le_rfl
  have leased : (cell.lease.live now).value = abstract.lease now := lease now le_rfl
  have reread : Agree now (cell.value.live now).reads abstract.counter := fun time after =>
    (ValueItem.reads_live after).trans (counter time after)
  have release : Agree now (cell.lease.live now).reads abstract.lease := fun time after =>
    (ValueItem.reads_live after).trans (lease time after)
  cases op with
  | get key =>
      exact ⟨congrArg Except.ok count, reread, lease, log, counted⟩
  | set key value ttl =>
      refine ⟨rfl, ?_, lease, log, counted⟩
      intro time _
      exact congrFun (ValueItem.reads_arm modern.1 used.1) time
  | compareAndSwap key oldVal newVal ttl =>
      simp only [handle, Slot.handle, count]
      split_ifs
      · refine ⟨rfl, ?_, lease, log, counted⟩
        intro time _
        exact congrFun (ValueItem.reads_arm modern.1 used.1) time
      · exact ⟨rfl, reread, lease, log, counted⟩
  | checkAndAddTimestamps key cutoff limit cost ts ttl =>
      exact slot_checkAndAddTimestamps stands ordered
  | acquireLease key limit ttl =>
      simp only [handle, Slot.handle, leased]
      rw [if_neg (not_le.mpr used.1), if_neg (not_le.mpr used.1)]
      split_ifs
      · exact ⟨rfl, counter, release, log, counted⟩
      · refine ⟨rfl, counter, ?_, log, ?_⟩
        · intro time _
          exact congrFun (ValueItem.reads_arm modern.1 used.2.1) time
        · intro time
          have := counted now
          simp only [armed]
          split_ifs
          · omega
          · exact le_rfl
  | releaseLease key =>
      refine ⟨rfl, counter, ?_, log, fun time => le_max_right _ _⟩
      intro time after
      refine (ValueItem.reads_released after ?_).trans ?_
      · exact (counted now).trans_eq (lease now le_rfl).symm
      · exact congrArg (fun value => max (value - 1) 0) (lease time after)
  | _ => exact used.elim

end Cell

namespace MemoryStore

/-- The in-process store, with any number of shards. -/
def backend (A : Arith) : Backend A MemoryStore where
  handle := MemoryStore.handle A
  slot store key := (store.cells key).slot
  refines before now op store abstract ordered modern used stands := by
    obtain ⟨answer, own⟩ := handle_own A now op store
    rw [answer, own]
    exact Cell.slot_handle ordered modern used stands
  others now op store key _ _ different := by
    rw [cells_handle, Cells.handle_other different]

theorem counterEnv_handle (A : Arith) : counterEnv (MemoryStore.handle A) = MemoryStore.env A := by
  funext time op store
  cases op <;> rfl

theorem standsFor_newSharded (A : Arith) (shardCount start : Int) :
    (backend A).StandsFor start (newSharded shardCount) fun _ => {} := by
  intro key
  have zero : ({} : ValueItem).reads = fun _ => 0 := by
    funext time
    rw [ValueItem.reads, ValueItem.live]
    split_ifs <;> rfl
  refine ⟨?_, ?_, rfl, fun _ => le_rfl⟩
  · exact fun time _ => congrFun zero time
  · exact fun time _ => congrFun zero time

end MemoryStore

end Rlaas.Store
