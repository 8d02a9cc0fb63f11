import Rlaas.Algorithm.Runs

/-! The two retry loops of a call that no other call interferes with: both end in
their first round. -/

set_option autoImplicit false

namespace Rlaas.Algorithm

open Go Model Store Effect Function

theorem maxRetries_pos (cfg : AlgorithmConfig) : ∃ retries, maxRetries cfg = retries + 1 := by
  unfold maxRetries
  split
  · exact ⟨cfg.maxRetries.toNat - 1, by omega⟩
  · exact ⟨4, rfl⟩

/-- Alone on a counter that does not expire, the loop ends in its first round. -/
theorem counterLoop_exec_of_fresh (A : Arith) (rule : CounterRule) (attempts : Nat) (clock : Nat → Time)
    (cells : Cells) (read : (cells rule.key).value.expired (clock 0).nanos = false)
    (swapped : (cells rule.key).value.expired (clock 1).nanos = false) :
    (counterLoop A rule (attempts + 1)).exec (Cells.env A) clock cells =
      if rule.overLimit (cells rule.key).value.value then
        (.ok (overLimitDecision rule.policy (clock 1) rule.retryAfter 0 rule.exceeded), cells)
      else
        (.ok (rule.admission (cells rule.key).value.value),
          update cells rule.key { cells rule.key with
            value := ValueItem.arm (clock 1).nanos rule.ttl { (cells rule.key).value with
              value := A.wrap ((cells rule.key).value.value + rule.cost) } }) := by
  rw [counterLoop, exec_attempt_ok (Cells.env A) _ _ (Cells.get_of_fresh read)]
  split
  · rfl
  · have outcome : cells.handle A (clock 1).nanos (.compareAndSwap rule.key
        (cells rule.key).value.value (A.wrap ((cells rule.key).value.value + rule.cost)) rule.ttl) =
      _ := Cells.compareAndSwap_of_fresh swapped
    rw [if_pos rfl] at outcome
    rw [exec_attempt_ok (Cells.env A) _ (fun n => clock (n + 1)) outcome]
    rfl

theorem exec_get (A : Arith) (key : String) (next : Int → Evaluation Answer) (clock : Nat → Time)
    (cells : Cells) :
    (attempt (.get key) next).exec (Cells.env A) clock cells =
      (next ((cells key).value.live (clock 0).nanos).value).exec (Cells.env A)
        (fun n => clock (n + 1)) (cells.dropExpired (clock 0).nanos key) :=
  exec_attempt_ok (Cells.env A) next clock (Cells.get_eq A (clock 0).nanos key cells)

theorem exec_swap (A : Arith) {key : String} {oldVal newVal : Int} {ttl : Duration}
    (next : Bool → Evaluation Answer) (clock : Nat → Time) {cells : Cells}
    (same : ((cells key).value.live (clock 0).nanos).value = oldVal) :
    (attempt (.compareAndSwap key oldVal newVal ttl) next).exec (Cells.env A) clock cells =
      (next true).exec (Cells.env A) (fun n => clock (n + 1))
        (update cells key { cells key with
          value := ValueItem.arm (clock 0).nanos ttl
            { (cells key).value.live (clock 0).nanos with value := newVal } }) :=
  exec_attempt_ok (Cells.env A) next clock
    ((Cells.compareAndSwap_eq A (clock 0).nanos oldVal newVal ttl key cells).trans (if_pos same))

/-- Alone at one instant, the loop ends in its first round. -/
theorem counterLoop_exec (A : Arith) (rule : CounterRule) (attempts : Nat) (now : Time)
    (cells : Cells) :
    (counterLoop A rule (attempts + 1)).exec (Cells.env A) (fun _ => now) cells =
      if rule.overLimit ((cells rule.key).value.live now.nanos).value then
        (.ok (overLimitDecision rule.policy now rule.retryAfter 0 rule.exceeded),
          cells.dropExpired now.nanos rule.key)
      else
        (.ok (rule.admission ((cells rule.key).value.live now.nanos).value),
          cells.store now.nanos rule.ttl rule.key
            (A.wrap (((cells rule.key).value.live now.nanos).value + rule.cost))) := by
  have unmoved : ((cells.dropExpired now.nanos rule.key) rule.key).value.live now.nanos =
      (cells rule.key).value.live now.nanos := by
    rw [Cells.dropExpired_value_self, ValueItem.live_live (le_refl _)]
  rw [counterLoop, exec_get]
  split
  · rfl
  · rw [exec_swap A _ _ (congrArg ValueItem.value unmoved), if_pos rfl, unmoved, Program.exec_done,
      Cells.dropExpired, update_idem, update_self]
    rfl

/-- A call with one counter is refused for what it has seen, or it adds its cost to that. -/
theorem counter_exec_cases (A : Arith) (rule : Time → CounterRule) (cfg : AlgorithmConfig)
    (now : Time) (store : MemoryStore) :
    ((rule now).overLimit (seen store now.nanos (rule now).key) = true ∧
        ((readNow fun now => counterLoop A (rule now) (maxRetries cfg)).exec (MemoryStore.env A)
          (fun _ => now) store).1 =
            .ok (overLimitDecision (rule now).policy now (rule now).retryAfter 0 (rule now).exceeded) ∧
        ((readNow fun now => counterLoop A (rule now) (maxRetries cfg)).exec (MemoryStore.env A)
          (fun _ => now) store).2.cells = store.cells.dropExpired now.nanos (rule now).key) ∨
      ((rule now).overLimit (seen store now.nanos (rule now).key) = false ∧
        ((readNow fun now => counterLoop A (rule now) (maxRetries cfg)).exec (MemoryStore.env A)
          (fun _ => now) store).1 =
            .ok ((rule now).admission (seen store now.nanos (rule now).key)) ∧
        ((readNow fun now => counterLoop A (rule now) (maxRetries cfg)).exec (MemoryStore.env A)
          (fun _ => now) store).2.cells =
            store.cells.store now.nanos (rule now).ttl (rule now).key
              (A.wrap (seen store now.nanos (rule now).key + (rule now).cost))) := by
  obtain ⟨retries, tries⟩ := maxRetries_pos cfg
  have refined := MemoryStore.exec_cells A (readNow fun now => counterLoop A (rule now) (maxRetries cfg))
    (fun _ => now) store
  rw [readNow, Program.exec_call, tries] at refined
  have alone := (counterLoop_exec A (rule now) retries now store.cells).symm.trans refined
  rw [tries]
  cases exceeds : (rule now).overLimit (seen store now.nanos (rule now).key) with
  | true =>
      obtain ⟨result, cells⟩ := Prod.mk.inj ((if_pos exceeds).symm.trans alone)
      exact .inl ⟨rfl, result.symm, cells.symm⟩
  | false =>
      obtain ⟨result, cells⟩ :=
        Prod.mk.inj ((if_neg (ne_true_of_eq_false exceeds)).symm.trans alone)
      exact .inr ⟨rfl, result.symm, cells.symm⟩

theorem setTimestamp_exec (A : Arith) (rule : BucketRule) (decision : Decision) (tries : Nat)
    (clock : Nat → Time) (cells : Cells) :
    (setTimestamp rule decision (tries + 1)).exec (Cells.env A) clock cells =
      (.ok decision, update cells rule.tsKey { cells rule.tsKey with
        value := ValueItem.arm (clock 0).nanos rule.ttl { value := rule.nowNanos } }) :=
  rfl

section Bucket

/-- What an admission leaves in a bucket: its level and the time it was written. -/
structure Fill where
  level : Int
  stamp : Int
  deriving DecidableEq

/-- Where the two entries of a bucket lie and how long they live. -/
structure Bucket where
  levelKey : String
  tsKey : String
  ttl : Duration
  apart : levelKey ≠ tsKey
  lasting : 0 < ttl

namespace Bucket

variable (bucket : Bucket)
variable {fill : Fill}

def expiry (fill : Fill) : Int := fill.stamp + bucket.ttl

/-- One of the two entries. -/
def item (view : Fill → Int) : Option Fill → ValueItem
  | none => {}
  | some fill => { value := view fill, expiry := bucket.expiry fill }

/-- A store whose entries are those of the last admission, or absent. -/
structure Holds (cells : Cells) (last : Option Fill) : Prop where
  level : (cells bucket.levelKey).value = bucket.item Fill.level last
  stamp : (cells bucket.tsKey).value = bucket.item Fill.stamp last

def expired (now : Int) (fill : Fill) : Bool := ValueItem.expired now { expiry := bucket.expiry fill }

/-- What a call at an instant still finds; both entries expire together. -/
def found (now : Int) (last : Option Fill) : Option Fill :=
  last.filter fun fill => !bucket.expired now fill

/-- The zero time, which stands for no expiry, lies before every positive stamp. -/
theorem expired_iff {now : Int} (positive : 0 < fill.stamp) :
    bucket.expired now fill = true ↔ fill.stamp + bucket.ttl < now := by
  have lasting : (0 : Int) < bucket.ttl := bucket.lasting
  have set : fill.stamp + bucket.ttl ≠ zeroNanos := by
    unfold zeroNanos second
    omega
  unfold expired ValueItem.expired expiry
  rw [decide_eq_true set, Bool.true_and, decide_eq_true_eq]

theorem expired_of_le {now later : Int} (ordered : now ≤ later)
    (gone : bucket.expired now fill = true) : bucket.expired later fill = true := by
  simp only [expired, ValueItem.expired, Bool.and_eq_true, decide_eq_true_eq] at gone ⊢
  exact ⟨gone.1, lt_of_lt_of_le gone.2 ordered⟩

theorem found_of_expired {now : Int} (gone : bucket.expired now fill = true) :
    bucket.found now (some fill) = none :=
  Option.filter_some_neg (by simp [gone])

theorem found_of_unexpired {now : Int} (fresh : bucket.expired now fill = false) :
    bucket.found now (some fill) = some fill :=
  Option.filter_some_pos (by simp [fresh])

theorem item_live (view : Fill → Int) (now : Int) (last : Option Fill) :
    (bucket.item view last).live now = bucket.item view (bucket.found now last) := by
  cases last with
  | none => rfl
  | some fill =>
      cases gone : bucket.expired now fill with
      | true =>
          rw [bucket.found_of_expired gone]
          exact if_pos gone
      | false =>
          rw [bucket.found_of_unexpired gone]
          exact if_neg (ne_true_of_eq_false gone)

theorem found_cases (now : Int) (last : Option Fill) :
    bucket.found now last = none ∨ bucket.found now last = last := by
  cases last with
  | none => exact .inl rfl
  | some fill =>
      cases gone : bucket.expired now fill with
      | true => exact .inl (bucket.found_of_expired gone)
      | false => exact .inr (bucket.found_of_unexpired gone)

/-- A read leaves what a later call finds if that call would find nothing expired again. -/
theorem found_found {now later : Int} {last : Option Fill}
    (steady : ∀ fill ∈ last, bucket.expired now fill = true → bucket.expired later fill = true) :
    bucket.found later (bucket.found now last) = bucket.found later last := by
  cases last with
  | none => rfl
  | some fill =>
      cases gone : bucket.expired now fill with
      | true =>
          rw [bucket.found_of_expired gone, bucket.found_of_expired (steady fill rfl gone)]
          rfl
      | false => rw [bucket.found_of_unexpired gone]

/-- A call at one instant of the clock that it shares with the store. -/
structure Serves (rule : BucketRule) (now : Time) : Prop where
  levelKey : rule.levelKey = bucket.levelKey
  tsKey : rule.tsKey = bucket.tsKey
  ttl : rule.ttl = bucket.ttl
  nowNanos : rule.nowNanos = now.nanos

/-- What the call plans from what it finds. -/
def step (rule : BucketRule) (last : Option Fill) : BucketStep :=
  rule.plan (bucket.item Fill.level (bucket.found rule.nowNanos last)).value
    (bucket.item Fill.stamp (bucket.found rule.nowNanos last)).value

def after (rule : BucketRule) (last : Option Fill) : Option Fill :=
  match bucket.step rule last with
  | .refuse .. => bucket.found rule.nowNanos last
  | .take newLevel _ => some ⟨newLevel, rule.nowNanos⟩

end Bucket

def BucketStep.answer (rule : BucketRule) (now : Time) : BucketStep → Answer
  | .refuse retryAfter remaining =>
      .ok (overLimitDecision rule.policy now retryAfter remaining rule.exceeded)
  | .take _ decision => .ok decision

/-- Alone on its bucket, a call does what it plans from what it finds. -/
theorem bucketLoop_exec (A : Arith) {bucket : Bucket} {rule : BucketRule} {now : Time}
    {cells : Cells} {last : Option Fill} (serves : bucket.Serves rule now)
    (holds : bucket.Holds cells last) (attempts : Nat) :
    ((bucketLoop rule (attempts + 1)).exec (Cells.env A) (fun _ => now) cells).1 =
        (bucket.step rule last).answer rule now ∧
      bucket.Holds ((bucketLoop rule (attempts + 1)).exec (Cells.env A) (fun _ => now) cells).2
        (bucket.after rule last) := by
  obtain ⟨levelKeyed, tsKeyed, lasting, timed⟩ := serves
  have apart : rule.levelKey ≠ rule.tsKey := by
    rw [levelKeyed, tsKeyed]
    exact bucket.apart
  have level : (cells rule.levelKey).value.live now.nanos =
      bucket.item Fill.level (bucket.found rule.nowNanos last) := by
    rw [levelKeyed, holds.level, timed, bucket.item_live]
  have stamp : (cells rule.tsKey).value.live now.nanos =
      bucket.item Fill.stamp (bucket.found rule.nowNanos last) := by
    rw [tsKeyed, holds.stamp, timed, bucket.item_live]
  have second : ((cells.dropExpired now.nanos rule.levelKey) rule.tsKey).value.live now.nanos =
      bucket.item Fill.stamp (bucket.found rule.nowNanos last) := by
    rw [Cells.dropExpired_other now.nanos apart.symm, stamp]
  rw [bucketLoop, exec_get, exec_get, level, second]
  unfold Bucket.after Bucket.step
  cases planned : rule.plan (bucket.item Fill.level (bucket.found rule.nowNanos last)).value
      (bucket.item Fill.stamp (bucket.found rule.nowNanos last)).value with
  | refuse retryAfter remaining =>
      refine ⟨rfl, ?_, ?_⟩
      · change ((Cells.dropExpired _ _ (Cells.dropExpired _ _ cells)) bucket.levelKey).value = _
        rw [← levelKeyed, Cells.dropExpired_other _ apart, Cells.dropExpired_value_self, level]
      · change ((Cells.dropExpired _ _ (Cells.dropExpired _ _ cells)) bucket.tsKey).value = _
        rw [← tsKeyed, Cells.dropExpired_value_self, second]
  | take newLevel decision =>
      have unmoved : ((Cells.dropExpired now.nanos rule.tsKey
          (cells.dropExpired now.nanos rule.levelKey)) rule.levelKey).value.live now.nanos =
            bucket.item Fill.level (bucket.found rule.nowNanos last) := by
        rw [Cells.dropExpired_other _ apart, Cells.dropExpired_value_self,
          ValueItem.live_live (le_refl _), level]
      simp only
      rw [exec_swap A _ _ (congrArg ValueItem.value unmoved), if_pos rfl, setTimestamp_exec]
      have armed : 0 < rule.ttl := lasting ▸ bucket.lasting
      refine ⟨rfl, ?_, ?_⟩
      · dsimp only
        rw [← levelKeyed, update_of_ne apart, update_self]
        rw [ValueItem.arm, if_pos armed, Bucket.item, Bucket.expiry, timed, lasting]
      · dsimp only
        rw [← tsKeyed, update_self]
        rw [ValueItem.arm, if_pos armed, Bucket.item, Bucket.expiry, timed, lasting]

theorem evaluate_exec (A : Arith) {bucket : Bucket} {rule : Time → BucketRule} {now : Time}
    {store : MemoryStore} {last : Option Fill} (serves : bucket.Serves (rule now) now)
    (holds : bucket.Holds store.cells last) (cfg : AlgorithmConfig) :
    ((readNow fun now => bucketLoop (rule now) (maxRetries cfg)).exec (MemoryStore.env A)
        (fun _ => now) store).1 = (bucket.step (rule now) last).answer (rule now) now ∧
      bucket.Holds ((readNow fun now => bucketLoop (rule now) (maxRetries cfg)).exec
        (MemoryStore.env A) (fun _ => now) store).2.cells (bucket.after (rule now) last) := by
  obtain ⟨retries, tries⟩ := maxRetries_pos cfg
  obtain ⟨answer, kept⟩ := bucketLoop_exec A serves holds retries
  have refined := MemoryStore.exec_cells A (readNow fun now => bucketLoop (rule now) (maxRetries cfg))
    (fun _ => now) store
  rw [readNow, Program.exec_call, tries] at refined
  obtain ⟨result, cells⟩ := Prod.mk.inj refined
  rw [tries, readNow]
  exact ⟨result.symm.trans answer, cells ▸ kept⟩

end Bucket

end Rlaas.Algorithm
