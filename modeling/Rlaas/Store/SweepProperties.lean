import Rlaas.Lib.Steps
import Rlaas.Store.MemoryCells

/-! Whole sequences of store methods and sweeps. Their answers do not depend on
the number of shards; they do depend on the sweeps, as only some methods drop an
expired timestamp log before they use it. -/

set_option autoImplicit false

namespace Rlaas.Store

open Go Model Effect

inductive Command where
  | method (op : CounterOp)
  | sweep

abbrev Reply (op : CounterOp) : Type := Except String op.Value

namespace MemoryStore

def step (A : Arith) (store : MemoryStore) : Int × Command → MemoryStore
  | (now, .method op) => (store.handle A now op).2
  | (now, .sweep) => store.sweep now

/-- The results of the methods, in order. -/
def answers (A : Arith) : MemoryStore → List (Int × Command) → List (Event CounterOp Reply)
  | _, [] => []
  | store, (now, .method op) :: rest =>
      ⟨op, (store.handle A now op).1⟩ :: answers A (store.handle A now op).2 rest
  | store, (now, .sweep) :: rest => answers A (store.sweep now) rest

end MemoryStore

namespace Cells

def answers (A : Arith) : Cells → List (Int × Command) → List (Event CounterOp Reply)
  | _, [] => []
  | cells, (now, .method op) :: rest =>
      ⟨op, (cells.handle A now op).1⟩ :: answers A (cells.handle A now op).2 rest
  | cells, (now, .sweep) :: rest => answers A (cells.sweep now) rest

end Cells

theorem MemoryStore.answers_cells (A : Arith) (store : MemoryStore)
    (commands : List (Int × Command)) : store.answers A commands = store.cells.answers A commands := by
  induction commands generalizing store with
  | nil => rfl
  | cons command rest ih =>
      obtain ⟨now, command⟩ := command
      cases command with
      | method op =>
          rw [MemoryStore.answers, Cells.answers, MemoryStore.handle_cells, ih]
      | sweep =>
          rw [MemoryStore.answers, Cells.answers, ← MemoryStore.sweep_cells, ih]

/-- The number of shards shows in no result. -/
theorem answers_newSharded (A : Arith) (shardCount : Int) (commands : List (Int × Command)) :
    (MemoryStore.newSharded shardCount).answers A commands =
      (MemoryStore.newSharded 1).answers A commands := by
  rw [MemoryStore.answers_cells, MemoryStore.answers_cells, MemoryStore.newSharded_cells,
    MemoryStore.newSharded_cells]

/-- The log of a key has outlived its TTL, so that a sweep drops it. -/
def Cell.LogExpired (now : Int) (cell : Cell) : Prop :=
  cell.tsExpiry ≠ zeroNanos ∧ cell.tsExpiry < now

/-- Two cells with one log whose values and leases no read from `now` on tells apart. -/
structure Cell.SameFrom (now : Int) (left right : Cell) : Prop where
  timestamps : left.timestamps = right.timestamps
  tsExpiry : left.tsExpiry = right.tsExpiry
  value : ∀ later, now ≤ later → left.value.live later = right.value.live later
  lease : ∀ later, now ≤ later → left.lease.live later = right.lease.live later

namespace Cell.SameFrom

variable {A : Arith} {now later : Int} {left right : Cell}

theorem mono (same : SameFrom now left right) (ordered : now ≤ later) :
    SameFrom later left right where
  timestamps := same.timestamps
  tsExpiry := same.tsExpiry
  value latest reached := same.value latest (ordered.trans reached)
  lease latest reached := same.lease latest (ordered.trans reached)

theorem handle (same : SameFrom now left right) (ordered : now ≤ later) (op : CounterOp) :
    (left.handle A later op).1 = (right.handle A later op).1 ∧
      SameFrom later (left.handle A later op).2 (right.handle A later op).2 := by
  obtain ⟨log, expiry, value, lease⟩ := same.mono ordered
  have sameValue := value later le_rfl
  have sameLease := lease later le_rfl
  cases op with
  | increment key amount ttl =>
      simp only [Cell.handle, sameValue]
      exact ⟨trivial, log, expiry, fun _ _ => rfl, lease⟩
  | get key =>
      simp only [Cell.handle, sameValue]
      exact ⟨trivial, log, expiry, fun _ _ => rfl, lease⟩
  | set key amount ttl => exact ⟨rfl, log, expiry, fun _ _ => rfl, lease⟩
  | compareAndSwap key oldVal newVal ttl =>
      simp only [Cell.handle, sameValue]
      split
      · exact ⟨rfl, log, expiry, fun _ _ => rfl, lease⟩
      · exact ⟨rfl, log, expiry, fun _ _ => rfl, lease⟩
  | delete key => exact ⟨rfl, rfl, rfl, fun _ _ => rfl, fun _ _ => rfl⟩
  | addTimestamp key ts ttl =>
      simp only [Cell.handle, log, expiry]
      exact ⟨trivial, rfl, rfl, value, lease⟩
  | countAfter key after =>
      simp only [Cell.handle, log, expiry]
      split
      · exact ⟨rfl, log, expiry, value, lease⟩
      · exact ⟨rfl, rfl, rfl, value, lease⟩
  | trimBefore key before =>
      simp only [Cell.handle, log]
      exact ⟨trivial, rfl, expiry, value, lease⟩
  | checkAndAddTimestamps key cutoff limit cost ts ttl =>
      simp only [Cell.handle, log, expiry]
      split
      · exact ⟨rfl, rfl, rfl, value, lease⟩
      · exact ⟨rfl, rfl, rfl, value, lease⟩
  | acquireLease key limit ttl =>
      simp only [Cell.handle, sameLease]
      split
      · exact ⟨rfl, log, expiry, value, lease⟩
      · split
        · exact ⟨rfl, log, expiry, value, fun _ _ => rfl⟩
        · exact ⟨rfl, log, expiry, value, fun _ _ => rfl⟩
  | releaseLease key =>
      simp only [Cell.handle, sameLease]
      exact ⟨trivial, log, expiry, value, fun _ _ => rfl⟩

theorem sweep (same : SameFrom now left right) (ordered : now ≤ later)
    (kept : ¬left.LogExpired later) : SameFrom later (left.sweep later) right where
  timestamps := (if_neg kept).trans same.timestamps
  tsExpiry := (if_neg kept).trans same.tsExpiry
  value latest reached :=
    (ValueItem.live_live reached _).trans (same.value latest (ordered.trans reached))
  lease latest reached :=
    (ValueItem.live_live reached _).trans (same.lease latest (ordered.trans reached))

theorem refl (cell : Cell) : SameFrom now cell cell := ⟨rfl, rfl, fun _ _ => rfl, fun _ _ => rfl⟩

end Cell.SameFrom

/-- The commands without the sweeps. -/
def methods (commands : List (Int × Command)) : List (Int × Command) :=
  commands.filter fun command =>
    match command.2 with
    | .method _ => true
    | .sweep => false

/-- The readings do not run backwards. -/
def Timely (now : Int) (commands : List (Int × Command)) : Prop :=
  (now :: commands.map (·.1)).IsChain (· ≤ ·)

/-- A sweep finds no expired timestamp log. -/
def Harmless (store : MemoryStore) : Int × Command → Prop
  | (_, .method _) => True
  | (now, .sweep) => ∀ key, ¬(store.cells key).LogExpired now

theorem handle_sameFrom {A : Arith} {now later : Int} {swept plain : MemoryStore}
    (same : ∀ key, (swept.cells key).SameFrom now (plain.cells key)) (ordered : now ≤ later)
    (op : CounterOp) :
    (swept.handle A later op).1 = (plain.handle A later op).1 ∧
      ∀ key, ((swept.handle A later op).2.cells key).SameFrom later
        ((plain.handle A later op).2.cells key) := by
  obtain ⟨answer, own⟩ := (same op.key).handle (A := A) ordered op
  constructor
  · rw [(swept.handle_own A later op).1, (plain.handle_own A later op).1, answer]
  · rw [MemoryStore.cells_handle, MemoryStore.cells_handle]
    exact Cells.handle_related (R := fun _ => Cell.SameFrom later)
      (fun key => (same key).mono ordered) own

theorem answers_of_sameFrom {A : Arith} (commands : List (Int × Command)) {now : Int}
    {swept plain : MemoryStore} (same : ∀ key, (swept.cells key).SameFrom now (plain.cells key))
    (timely : Timely now commands)
    (harmless : AllSteps (MemoryStore.step A) Harmless swept commands) :
    swept.answers A commands = plain.answers A (methods commands) := by
  induction commands generalizing now swept plain with
  | nil => rfl
  | cons command rest ih =>
      obtain ⟨later, command⟩ := command
      obtain ⟨ordered, timely⟩ := List.isChain_cons_cons.mp timely
      obtain ⟨safe, harmless⟩ := harmless
      cases command with
      | method op =>
          obtain ⟨answer, after⟩ := handle_sameFrom (A := A) same ordered op
          have listed : methods ((later, .method op) :: rest) = (later, .method op) :: methods rest :=
            rfl
          rw [listed, MemoryStore.answers, MemoryStore.answers, ih after timely harmless]
          exact congrArg (fun result => (⟨op, result⟩ : Event CounterOp Reply) :: _) answer
      | sweep => exact ih (fun key => (same key).sweep ordered (safe key)) timely harmless

/-- A timestamp added without a TTL to an expired log is dropped with it; added
after a sweep, it stays. -/
theorem countAfter_addTimestamp {A : Arith} {now : Int} {cell : Cell}
    (expired : cell.LogExpired now) (key : String) :
    ((cell.handle A now (.addTimestamp key now 0)).2.handle A now (.countAfter key now)).1 =
        .ok (0 : Int) ∧
      (((cell.sweep now).handle A now (.addTimestamp key now 0)).2.handle A now
        (.countAfter key now)).1 = .ok (1 : Int) := by
  have past : ¬(cell.tsExpiry = zeroNanos ∨ now < cell.tsExpiry) := by
    rintro (unset | early)
    · exact expired.1 unset
    · exact absurd early (not_lt.mpr expired.2.le)
  constructor
  · simp [Cell.handle, past]
  · have dropped : (cell.sweep now).timestamps = [] ∧ (cell.sweep now).tsExpiry = zeroNanos :=
      ⟨if_pos expired, if_pos expired⟩
    simp [Cell.handle, dropped, kept]

/-- A sweep at a reading shows in no later result, in whatever way further sweeps
without expired logs to drop are inserted, exactly if it finds no expired log itself. -/
theorem sweep_unobservable_iff (A : Arith) (store : MemoryStore) (now : Int) :
    (∀ commands, Timely now commands →
      AllSteps (MemoryStore.step A) Harmless (store.sweep now) commands →
        (store.sweep now).answers A commands = store.answers A (methods commands)) ↔
      ∀ key, ¬(store.cells key).LogExpired now := by
  constructor
  · intro unobservable key expired
    have same := unobservable [(now, .method (.addTimestamp key now 0)),
      (now, .method (.countAfter key now))] (by simp [Timely]) ⟨trivial, trivial, trivial⟩
    obtain ⟨plain, swept⟩ := countAfter_addTimestamp (A := A) expired key
    have counts : ∀ cells : Cells, (cells.answers A [(now, .method (.addTimestamp key now 0)),
        (now, .method (.countAfter key now))])[1]? = some ⟨.countAfter key now,
          (((cells key).handle A now (.addTimestamp key now 0)).2.handle A now
            (.countAfter key now)).1⟩ := by
      intro cells
      simp [Cells.answers, Cells.handle, CounterOp.key]
    have second := congrArg (·[1]?) same
    rw [MemoryStore.answers_cells, MemoryStore.answers_cells] at second
    have differ := (counts _).symm.trans (second.trans (counts _))
    simp only [Option.some.injEq, Event.mk.injEq, heq_eq_eq, true_and, plain] at differ
    cases swept.symm.trans differ
  · intro kept commands timely harmless
    exact answers_of_sameFrom commands
      (fun key => (Cell.SameFrom.refl (store.cells key)).sweep le_rfl (kept key)) timely harmless

/-- A log with a TTL of ten is asked for at twenty: without the sweep the old
timestamp still counts and the request is refused, after it the request is admitted. -/
theorem sweep_observed :
    (MemoryStore.newSharded 1).answers .machine
        [(0, .method (.addTimestamp "k" 100 10)),
          (20, .method (.checkAndAddTimestamps "k" 50 1 1 100 10))] =
      [⟨.addTimestamp "k" 100 10, .ok ()⟩,
        ⟨.checkAndAddTimestamps "k" 50 1 1 100 10, .ok ((1 : Int), false)⟩] ∧
    (MemoryStore.newSharded 1).answers .machine
        [(0, .method (.addTimestamp "k" 100 10)), (20, .sweep),
          (20, .method (.checkAndAddTimestamps "k" 50 1 1 100 10))] =
      [⟨.addTimestamp "k" 100 10, .ok ()⟩,
        ⟨.checkAndAddTimestamps "k" 50 1 1 100 10, .ok ((0 : Int), true)⟩] :=
  ⟨rfl, rfl⟩

end Rlaas.Store
