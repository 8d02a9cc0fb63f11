import Rlaas.Algorithm.Charging
import Rlaas.Algorithm.Footprint
import Rlaas.Algorithm.Runs

/-! Refused calls leave no trace. A refused call still reads, and reading drops
what has expired and, in the sliding log, what has left the window; none of it
shows in later calls. -/

set_option autoImplicit false

namespace Rlaas.Store

/-- Two cells that no read at one of the `later` instants tells apart. A log is
read from `offset` after the instant on. -/
structure Cell.Alike (offset : Int) (later : Int → Prop) (left right : Cell) : Prop where
  value : ∀ now, later now → left.value.live now = right.value.live now
  lease : ∀ now, later now → left.lease.live now = right.lease.live now
  log : ∀ now, later now → kept (now + offset) left.timestamps = kept (now + offset) right.timestamps

def Cells.Alike (offset : Int) (later : Int → Prop) (left right : Cells) : Prop :=
  ∀ key, (left key).Alike offset later (right key)

section Alike

variable {offset : Int} {later : Int → Prop}

theorem Cell.Alike.trans {left middle right : Cell} (first : left.Alike offset later middle)
    (second : middle.Alike offset later right) : left.Alike offset later right where
  value now reached := (first.value now reached).trans (second.value now reached)
  lease now reached := (first.lease now reached).trans (second.lease now reached)
  log now reached := (first.log now reached).trans (second.log now reached)

theorem Cell.Alike.mono {sooner : Int → Prop} {left right : Cell}
    (alike : left.Alike offset later right) (fewer : ∀ now, sooner now → later now) :
    left.Alike offset sooner right where
  value now reached := alike.value now (fewer now reached)
  lease now reached := alike.lease now (fewer now reached)
  log now reached := alike.log now (fewer now reached)

theorem Cell.Alike.refl (cell : Cell) : cell.Alike offset later cell :=
  ⟨fun _ _ => rfl, fun _ _ => rfl, fun _ _ => rfl⟩

end Alike

end Rlaas.Store

namespace Rlaas.Algorithm

open Go Model Store Effect

section Steps

variable {A : Arith} {policy : Policy} (key : String) {later : Int → Prop}

private def cutoffOffset (A : Arith) (policy : Policy) : Int :=
  A.wrap (-windowDuration policy.algorithm)

private theorem handle_alike {left right : Cell}
    (alike : left.Alike (cutoffOffset A policy) later right) {time : Time}
    (reached : later time.nanos) {now : Option Time} {op : CounterOp}
    (touches : Touches A policy key (fun t => later t.nanos) now (.store op)) :
    (left.handle A time.nanos op).1 = (right.handle A time.nanos op).1 ∧
      (left.handle A time.nanos op).2.Alike (cutoffOffset A policy) later
        (right.handle A time.nanos op).2 := by
  have sameValue := alike.value _ reached
  have sameLease := alike.lease _ reached
  cases op with
  | get storageKey =>
      refine ⟨by simp only [Cell.handle, sameValue], ?_⟩
      simp only [Cell.handle, sameValue]
      exact ⟨fun _ _ => rfl, alike.lease, alike.log⟩
  | set storageKey value ttl => exact ⟨rfl, fun _ _ => rfl, alike.lease, alike.log⟩
  | compareAndSwap storageKey oldVal newVal ttl =>
      simp only [Cell.handle, sameValue]
      split
      · exact ⟨rfl, fun _ _ => rfl, alike.lease, alike.log⟩
      · exact ⟨rfl, fun _ _ => rfl, alike.lease, alike.log⟩
  | checkAndAddTimestamps storageKey cutoff limit cost ts ttl =>
      obtain ⟨-, t, -, timely, rfl⟩ := touches
      have sameLog : kept (t.nanos + A.wrap (-windowDuration policy.algorithm)) left.timestamps =
          kept (t.nanos + A.wrap (-windowDuration policy.algorithm)) right.timestamps :=
        alike.log t.nanos timely
      simp only [Cell.handle, sameLog]
      split
      · exact ⟨rfl, alike.value, alike.lease, fun _ _ => rfl⟩
      · exact ⟨rfl, alike.value, alike.lease, fun _ _ => rfl⟩
  | acquireLease storageKey limit ttl =>
      simp only [Cell.handle, sameLease]
      split
      · exact ⟨rfl, alike⟩
      · split
        · exact ⟨rfl, alike.value, fun _ _ => rfl, alike.log⟩
        · exact ⟨rfl, alike.value, fun _ _ => rfl, alike.log⟩
  | increment | delete | addTimestamp | countAfter | trimBefore | releaseLease =>
      exact touches.2.elim

private theorem handle_quiet {time : Time} (earlier : ∀ now, later now → time.nanos ≤ now)
    {now : Option Time} {op : CounterOp}
    (touches : Touches A policy key (fun t => ∀ now, later now → t.nanos ≤ now) now (.store op))
    (cell : Cell) (quiet : writes (.store op) (cell.handle A time.nanos op).1 = false) :
    (cell.handle A time.nanos op).2.Alike (cutoffOffset A policy) later cell := by
  have value : ∀ now, later now → (cell.value.live time.nanos).live now = cell.value.live now :=
    fun now reached => ValueItem.live_live (earlier now reached) _
  have lease : ∀ now, later now → (cell.lease.live time.nanos).live now = cell.lease.live now :=
    fun now reached => ValueItem.live_live (earlier now reached) _
  cases op with
  | get storageKey => exact ⟨value, fun _ _ => rfl, fun _ _ => rfl⟩
  | set storageKey value ttl => exact absurd quiet (by simp [Cell.handle, writes])
  | compareAndSwap storageKey oldVal newVal ttl =>
      simp only [Cell.handle] at quiet ⊢
      split at quiet
      · cases quiet
      · next differs =>
          rw [if_neg differs]
          exact ⟨value, fun _ _ => rfl, fun _ _ => rfl⟩
  | checkAndAddTimestamps storageKey cutoff limit cost ts ttl =>
      obtain ⟨-, t, -, before, rfl⟩ := touches
      simp only [Cell.handle] at quiet ⊢
      split at quiet
      · next above =>
          rw [if_pos above]
          refine ⟨fun _ _ => rfl, fun _ _ => rfl, fun now reached => ?_⟩
          exact kept_kept (Int.add_le_add_right (before now reached) _) _
      · cases quiet
  | acquireLease storageKey limit ttl =>
      simp only [Cell.handle] at quiet ⊢
      split at quiet
      · next invalid =>
          rw [if_pos invalid]
          exact .refl cell
      · next valid =>
          rw [if_neg valid]
          split at quiet
          · next full =>
              rw [if_pos full]
              exact ⟨fun _ _ => rfl, lease, fun _ _ => rfl⟩
          · cases quiet
  | increment | delete | addTimestamp | countAfter | trimBefore | releaseLease =>
      exact touches.2.elim

private theorem exec_alike {left right : MemoryStore}
    (alike : Cells.Alike (cutoffOffset A policy) later left.cells right.cells)
    (req : RequestContext) (kind : Kind) {clock : Nat → Time} (reached : ∀ n, later (clock n).nanos) :
    ((kind.evaluate A true policy req key).exec (MemoryStore.env A) clock left).1 =
        ((kind.evaluate A true policy req key).exec (MemoryStore.env A) clock right).1 ∧
      Cells.Alike (cutoffOffset A policy) later
        ((kind.evaluate A true policy req key).exec (MemoryStore.env A) clock left).2.cells
        ((kind.evaluate A true policy req key).exec (MemoryStore.env A) clock right).2.cells := by
  have respects : ∀ (now : Option Time) (left right : Cells) (time : Time) (op : EnvOp),
      Cells.Alike (cutoffOffset A policy) later left right → later time.nanos →
      Touches A policy key (fun t => later t.nanos) now op →
      (footprint A policy key fun t => later t.nanos).expects now op (Cells.env A time op left).1 ∧
        (Cells.env A time op left).1 = (Cells.env A time op right).1 ∧
        Cells.Alike (cutoffOffset A policy) later (Cells.env A time op left).2
          (Cells.env A time op right).2 := by
    intro now left right time op alike reached touches
    cases op with
    | now => exact ⟨reached, rfl, alike⟩
    | wallClock => exact ⟨trivial, rfl, alike⟩
    | store op =>
        obtain ⟨answer, after⟩ := handle_alike key (alike op.key) reached touches
        exact ⟨trivial, answer, Cells.handle_related
          (R := fun _ left right => left.Alike (cutoffOffset A policy) later right) alike after⟩
  have related := (evaluate_footprint A policy req key (fun t => later t.nanos) kind).exec_related
    (Cells.Alike (cutoffOffset A policy) later) (fun time => later time.nanos) respects clock
    reached alike
  rw [MemoryStore.exec_cells, MemoryStore.exec_cells] at related
  exact related

private theorem exec_refused (store : MemoryStore) (req : RequestContext) (kind : Kind)
    {clock : Nat → Time} (earlier : ∀ n now, later now → (clock n).nanos ≤ now)
    (refused : answeredOverLimit
      ((kind.evaluate A true policy req key).exec (MemoryStore.env A) clock store).1 = true) :
    Cells.Alike (cutoffOffset A policy) later
      ((kind.evaluate A true policy req key).exec (MemoryStore.env A) clock store).2.cells
      store.cells := by
  let before : Time → Prop := fun t => ∀ now, later now → t.nanos ≤ now
  have preserve : ∀ (watch : Option Time × Ledger) (cells : Cells) (time : Time) (op : EnvOp),
      (watch.2.written = false → Cells.Alike (cutoffOffset A policy) later cells store.cells) →
      before time → ((footprint A policy key before).both (settlement policy)).guard watch op →
      ((footprint A policy key before).both (settlement policy)).expects watch op
          (Cells.env A time op cells).1 ∧
        ((watch.2.record op (Cells.env A time op cells).1).written = false →
          Cells.Alike (cutoffOffset A policy) later (Cells.env A time op cells).2 store.cells) := by
    intro watch cells time op unwritten timely touches
    cases op with
    | now => exact ⟨⟨timely, trivial⟩, fun quiet => unwritten (Bool.or_eq_false_iff.mp quiet).1⟩
    | wallClock =>
        exact ⟨⟨trivial, trivial⟩, fun quiet => unwritten (Bool.or_eq_false_iff.mp quiet).1⟩
    | store op =>
        refine ⟨⟨trivial, trivial⟩, fun quiet storageKey => ?_⟩
        obtain ⟨past, silent⟩ := Bool.or_eq_false_iff.mp quiet
        by_cases own : storageKey = op.key
        · subst own
          have unseen := handle_quiet key timely touches.1 (cells op.key) silent
          have changed : (Cells.env A time (.store op) cells).2 op.key =
              ((cells op.key).handle A time.nanos op).2 := Function.update_self _ _ _
          rw [changed]
          exact unseen.trans (unwritten past op.key)
        · simp only [Cells.env]
          rw [Cells.handle_other own]
          exact unwritten past storageKey
  have executed := ((evaluate_footprint A policy req key before kind).both
    (evaluate_settles A policy req key kind)).exec
    (fun watch cells => watch.2.written = false →
      Cells.Alike (cutoffOffset A policy) later cells store.cells)
    before preserve clock earlier (fun _ _ => .refl _)
  rw [MemoryStore.exec_cells] at executed
  exact executed.1 (executed.2.2.unwritten refused)

end Steps

section Refusal

variable (A : Arith) (kind : Kind) (policy : Policy) (key : String)

/-- Without the calls that were answered over
limit, every other call gets the answer it got. -/
theorem refused_calls_leave_no_trace (calls : List TimedCall) (store : MemoryStore)
    (ordered : calls.Pairwise fun earlier later =>
      ∀ n m, (earlier.clock n).nanos ≤ (later.clock m).nanos) :
    (turns A kind policy key (((turns A kind policy key calls store).filter fun turn =>
        !answeredOverLimit turn.result).map (·.call)) store).map (·.result) =
      ((turns A kind policy key calls store).filter fun turn =>
        !answeredOverLimit turn.result).map (·.result) := by
  refine serial_omit (MemoryStore.env A) _ TimedCall.clock
    (fun turn => !answeredOverLimit turn.result)
    (fun rest whole reduced =>
      rest.Pairwise (fun earlier later => ∀ n m, (earlier.clock n).nanos ≤ (later.clock m).nanos) ∧
        Cells.Alike (cutoffOffset A policy)
          (fun now => ∃ call ∈ rest, ∃ n, (call.clock n).nanos = now) whole.cells reduced.cells)
    ?_ ?_ calls store store ⟨ordered, fun _ => .refl _⟩
  · intro call rest whole reduced related answered
    obtain ⟨ordered, alike⟩ := related
    obtain ⟨same, after⟩ := exec_alike key alike call.req kind
      fun n => ⟨call, List.mem_cons_self, n, rfl⟩
    refine ⟨same, ordered.of_cons, fun storageKey => (after storageKey).mono ?_⟩
    rintro now ⟨next, member, n, rfl⟩
    exact ⟨next, List.mem_cons_of_mem _ member, n, rfl⟩
  · intro call rest whole reduced related answered
    obtain ⟨ordered, alike⟩ := related
    have earlier : ∀ n now, (∃ next ∈ rest, ∃ m, (next.clock m).nanos = now) →
        (call.clock n).nanos ≤ now := by
      rintro n now ⟨next, member, m, rfl⟩
      exact (List.pairwise_cons.mp ordered).1 next member n m
    have unseen := exec_refused key whole call.req kind earlier
      (Bool.not_eq_eq_eq_not.mp answered)
    refine ⟨ordered.of_cons, fun storageKey => (unseen storageKey).trans ?_⟩
    refine (alike storageKey).mono ?_
    rintro now ⟨next, member, n, rfl⟩
    exact ⟨next, List.mem_cons_of_mem _ member, n, rfl⟩

private def pairOfUnits : Policy := { algorithm := { limit := 2, window := "1h" } }

private def callOf (quantity : Int) : TimedCall := ⟨{ quantity }, fun _ => ⟨12 * hour, utc⟩⟩

theorem refused_middle_call_leaves_no_trace :
    (turns .exact .fixedWindow pairOfUnits "k" [callOf 1, callOf 2, callOf 1]
        (.newSharded 4)).map (fun turn => answeredOverLimit turn.result) = [false, true, false] ∧
      (turns .exact .fixedWindow pairOfUnits "k" (((turns .exact .fixedWindow pairOfUnits
          "k" [callOf 1, callOf 2, callOf 1] (.newSharded 4)).filter fun turn =>
            !answeredOverLimit turn.result).map (·.call)) (.newSharded 4)).map (·.result) =
        ((turns .exact .fixedWindow pairOfUnits "k" [callOf 1, callOf 2, callOf 1]
          (.newSharded 4)).filter fun turn => !answeredOverLimit turn.result).map (·.result) :=
  ⟨by decide, refused_calls_leave_no_trace .exact .fixedWindow pairOfUnits "k"
    [callOf 1, callOf 2, callOf 1] (.newSharded 4) (by simp [callOf])⟩

end Refusal

end Rlaas.Algorithm
