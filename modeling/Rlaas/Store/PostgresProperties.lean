import Rlaas.Store.Postgres
import Rlaas.Lib.RowLockProperties

/-! Concurrent calls of `CompareAndSwap` and of `AcquireLease` on one key: both are row
protocols, in which a value leaves a number of writes. -/

set_option autoImplicit false

namespace Rlaas.Store.Postgres

open Go Effect RowLock

/-- A call with what it reads: `NOW()` in its transaction, and the client's clock, which
with its TTL gives the expiry it writes. -/
structure Call where
  start : Int
  clock : Int
  ttl : Duration
  deriving Inhabited

def Call.exp (call : Call) : Option Int := expiresAt call.clock call.ttl

def visible (calls : List Call) (tx : Nat) : Row → Bool := Row.live (calls.getD tx default).start

/-- Every transaction finds the row unexpired. -/
def Found (calls : List Call) (row : Option Row) : Prop :=
  ∀ call ∈ calls, row.any (Row.live call.start) = true

/-- What one call writes is unexpired for every other. -/
def Lasting (calls : List Call) : Prop :=
  ∀ (tx other : Nat) (call reader : Call), calls[tx]? = some call → calls[other]? = some reader →
    tx ≠ other → unexpired reader.start call.exp = true

def valueOf (seen : Option Row) : Int := seen.elim 0 Row.value

/-- What the calls write for the value they read, and how many writes a value leaves. -/
structure Counting where
  next : Int → Option Int
  left : Int → Nat
  spends : ∀ value value', next value = some value' → left value = left value' + 1
  stops : ∀ value, next value = none → left value = 0

def swap (oldVal newVal : Int) (different : newVal ≠ oldVal) : Counting where
  next value := if value = oldVal then some newVal else none
  left value := if value = oldVal then 1 else 0
  spends value value' wrote := by
    split_ifs at wrote with old
    cases wrote
    rw [if_pos old, if_neg different]
  stops value stopped := by
    split_ifs at stopped with old
    rw [if_neg old]

def lease (limit : Int) : Counting where
  next value := if value ≥ limit then none else some (value + 1)
  left value := (limit - value).toNat
  spends value value' wrote := by
    split_ifs at wrote with full
    cases wrote
    omega
  stops value stopped := by
    split_ifs at stopped with full
    omega

def rule (counting : Counting) (exp : Option Int) (seen : Option Row) : Option Row :=
  (counting.next (valueOf seen)).map fun value => ⟨value, exp⟩

theorem rule_eq_some {counting : Counting} {exp : Option Int} {seen : Option Row} {row : Row}
    (wrote : rule counting exp seen = some row) :
    counting.next (valueOf seen) = some row.value ∧ row.expiresAt = exp := by
  obtain ⟨value, next, rfl⟩ := Option.map_eq_some_iff.mp wrote
  exact ⟨next, rfl⟩

section Accepts

variable {tx : Nat}

def swapped (result : Except String Bool) : Bool :=
  match result with
  | .ok true => true
  | _ => false

def acquired (result : Except String (Bool × Int)) : Bool :=
  match result with
  | .ok (true, _) => true
  | _ => false

theorem leave_accepts {β : Type} {written : Option Row → Option Row} {granted : Except String β → Bool}
    {answer : Bool} {result : Except String β} (agrees : granted result = answer) :
    (watch written granted tx).Accepts (.leaving answer) (leave tx result) :=
  ⟨.leave, fun _ _ => agrees⟩

theorem commitOk_accepts {written : Option Row → Option Row} {row : Row} :
    (watch written swapped tx).Accepts (.written row) (commitOk tx) := by
  refine ⟨.commit, fun answer _ => ?_⟩
  cases answer with
  | error err => exact leave_accepts rfl
  | ok _ => exact leave_accepts rfl

theorem compareAndSwap_accepts (clock oldVal newVal : Int) (ttl : Duration)
    (different : newVal ≠ oldVal) :
    (watch (rule (swap oldVal newVal different) (expiresAt clock ttl)) swapped tx).Accepts .idle
      (compareAndSwap clock tx oldVal newVal ttl) := by
  have next : ∀ value, (swap oldVal newVal different).next value =
      if value = oldVal then some newVal else none := fun _ => rfl
  refine ⟨.begin, fun begun _ => ?_⟩
  cases begun with
  | error err => exact rfl
  | ok _ =>
      refine ⟨.select, fun selected _ => ?_⟩
      cases selected with
      | error err => exact leave_accepts rfl
      | ok seen =>
          refine accepts_selected ?_ ?_
          · intro stopped
            rw [rule, Option.map_eq_none_iff, next] at stopped
            cases seen with
            | none =>
                have nonzero : oldVal ≠ 0 := by
                  rintro rfl
                  cases stopped
                simp only [if_pos nonzero]
                exact leave_accepts rfl
            | some row =>
                have other : row.value ≠ oldVal := by
                  intro same
                  rw [valueOf, Option.elim, if_pos same] at stopped
                  cases stopped
                simp only [if_pos other]
                exact leave_accepts rfl
          · intro row wrote
            obtain ⟨chosen, expiry⟩ := rule_eq_some wrote
            rw [next] at chosen
            split_ifs at chosen with same
            have written : row = ⟨newVal, expiresAt clock ttl⟩ := by
              rw [Option.some.inj chosen, ← expiry]
            subst written
            cases seen with
            | none =>
                have zero : ¬ oldVal ≠ 0 := fun nonzero => nonzero same.symm
                simp only [if_neg zero]
                refine ⟨.upsert, fun inserted _ => ?_⟩
                cases inserted with
                | error err => exact leave_accepts rfl
                | ok _ => exact commitOk_accepts
            | some old =>
                have equal : ¬ old.value ≠ oldVal := fun other => other same
                simp only [if_neg equal]
                refine ⟨.update, fun updated _ => ?_⟩
                cases updated with
                | error err => exact leave_accepts rfl
                | ok _ => exact commitOk_accepts

theorem takeLease_accepts {limit cur : Int} {exp : Option Int} {seen : Option Row}
    (read : valueOf seen = cur) :
    (watch (rule (lease limit) exp) acquired tx).Accepts
      ((watch (rule (lease limit) exp) acquired tx).advance .begun (.selectForUpdate tx) (.ok seen))
      (takeLease tx limit cur exp) := by
  have next : (lease limit).next (valueOf seen) = if cur ≥ limit then none else some (cur + 1) := by
    rw [read]
    rfl
  refine accepts_selected ?_ ?_
  · intro stopped
    rw [rule, Option.map_eq_none_iff, next] at stopped
    split_ifs at stopped with full
    rw [takeLease, if_pos full]
    exact leave_accepts rfl
  · intro row wrote
    obtain ⟨chosen, expiry⟩ := rule_eq_some wrote
    rw [next] at chosen
    split_ifs at chosen with full
    have written : row = ⟨cur + 1, exp⟩ := by
      rw [Option.some.inj chosen, ← expiry]
    subst written
    rw [takeLease, if_neg full]
    refine ⟨.upsert, fun inserted _ => ?_⟩
    cases inserted with
    | error err => exact leave_accepts rfl
    | ok _ =>
        refine ⟨.commit, fun committed _ => ?_⟩
        cases committed with
        | error err => exact leave_accepts rfl
        | ok _ => exact leave_accepts rfl

theorem acquireLease_accepts (clock : Int) {limit : Int} (positive : 0 < limit) (ttl : Duration) :
    (watch (rule (lease limit) (expiresAt clock ttl)) acquired tx).Accepts .idle
      (acquireLease clock tx limit ttl) := by
  rw [acquireLease, if_neg (not_le.mpr positive)]
  refine ⟨.begin, fun begun _ => ?_⟩
  cases begun with
  | error err => exact rfl
  | ok _ =>
      refine ⟨.select, fun selected _ => ?_⟩
      cases selected with
      | error err => exact leave_accepts rfl
      | ok seen =>
          cases seen with
          | none => exact takeLease_accepts rfl
          | some row => exact takeLease_accepts rfl

end Accepts

/-- Calls that all begin at or after a time, as a row protocol. -/
def protocol (counting : Counting) (calls : List Call) (now : Int)
    (started : ∀ call ∈ calls, now ≤ call.start) : Protocol Row where
  count := calls.length
  visible := visible calls
  rule tx := rule counting (calls.getD tx default).exp
  lasts tx other := unexpired (calls.getD other default).start (calls.getD tx default).exp
  lasting tx other seen row wrote := by
    rw [visible, Row.live, (rule_eq_some wrote).2]
  start := Row.live now
  earlier tx inRange row live := by
    have member : calls.getD tx default ∈ calls := by
      rw [List.getD_eq_getElem?_getD, List.getElem?_eq_getElem inRange]
      exact List.getElem_mem inRange
    have before := started _ member
    rw [visible, Row.live, unexpired, Option.all_eq_true] at live
    rw [Row.live, unexpired, Option.all_eq_true]
    intro expires listed
    have later := live expires listed
    rw [decide_eq_true_eq] at later ⊢
    exact before.trans later
  left seen := counting.left (valueOf seen)
  spends tx seen row wrote := counting.spends _ _ (rule_eq_some wrote).1
  stops tx seen stopped := counting.stops _ (Option.map_eq_none_iff.mp stopped)

theorem getD_of_listed {calls : List Call} {tx : Nat} {call : Call} (listed : calls[tx]? = some call) :
    calls.getD tx default = call := by
  rw [List.getD_eq_getElem?_getD, listed]
  rfl

section Bounds

variable {counting : Counting} {calls : List Call} {now : Int}
  {started : ∀ call ∈ calls, now ≤ call.start} {row : Option Row}

theorem found_iff : (∀ tx < calls.length, row.any (visible calls tx) = true) ↔ Found calls row := by
  constructor
  · intro all call member
    obtain ⟨tx, inRange, rfl⟩ := List.mem_iff_getElem.mp member
    have seen := all tx inRange
    rwa [visible, getD_of_listed (List.getElem?_eq_getElem inRange)] at seen
  · intro found tx inRange
    rw [visible, getD_of_listed (List.getElem?_eq_getElem inRange)]
    exact found _ (List.getElem_mem inRange)

theorem lasting_iff : (∀ tx < calls.length, ∀ other < calls.length, tx ≠ other →
    unexpired (calls.getD other default).start (calls.getD tx default).exp = true) ↔
      Lasting calls := by
  constructor
  · intro all tx other call reader listed listed' different
    have lasts := all tx (List.getElem?_eq_some_iff.mp listed).1 other
      (List.getElem?_eq_some_iff.mp listed').1 different
    rwa [getD_of_listed listed, getD_of_listed listed'] at lasts
  · intro lasting tx inRange other otherInRange different
    rw [getD_of_listed (List.getElem?_eq_getElem inRange),
      getD_of_listed (List.getElem?_eq_getElem otherInRange)]
    exact lasting tx other _ _ (List.getElem?_eq_getElem inRange)
      (List.getElem?_eq_getElem otherInRange) different

theorem steady_iff : (protocol counting calls now started).Steady row ↔
    counting.left 0 = 0 ∨ (Found calls row ∧ (counting.left (get now row) = 0 ∨ Lasting calls)) :=
  or_congr Iff.rfl (and_congr found_iff (or_congr Iff.rfl lasting_iff))

/-- The calls that succeed, whatever they return. -/
theorem returned_le_iff {β : Type} (granted : Except String β → Bool)
    (program : Call → Nat → Transaction β)
    (accepts : ∀ call tx, (watch (rule counting call.exp) granted tx).Accepts .idle (program call tx))
    (started : ∀ call ∈ calls, now ≤ call.start)
    (missing : counting.left 0 ≠ 0 → counting.left (get now row) ≤ counting.left 0) :
    (∀ schedule, Legal (visible calls) (calls.mapIdx fun tx call => program call tx) row schedule →
      (returned granted (outcome (visible calls) (calls.mapIdx fun tx call => program call tx) row
        schedule)).card ≤ counting.left (get now row)) ↔
      calls.length ≤ counting.left (get now row) ∨ counting.left 0 = 0 ∨
        (Found calls row ∧ (counting.left (get now row) = 0 ∨ Lasting calls)) := by
  have size : (calls.mapIdx fun tx call => program call tx).length =
      (protocol counting calls now started).count := List.length_mapIdx
  have accepted : ∀ tx thread, (calls.mapIdx fun tx call => program call tx)[tx]? = some thread →
      ((protocol counting calls now started).monitors granted tx).Accepts .idle thread := by
    intro tx thread found
    rw [List.getElem?_mapIdx, Option.map_eq_some_iff] at found
    obtain ⟨call, listed, rfl⟩ := found
    have own := accepts call tx
    rw [← getD_of_listed listed] at own ⊢
    exact own
  refine (Protocol.returned_le_iff size accepted missing).trans ?_
  rw [steady_iff]
  exact Iff.rfl

def swaps (calls : List Call) (oldVal newVal : Int) : List (Transaction Bool) :=
  calls.mapIdx fun tx call => compareAndSwap call.clock tx oldVal newVal call.ttl

def acquisitions (calls : List Call) (limit : Int) : List (Transaction (Bool × Int)) :=
  calls.mapIdx fun tx call => acquireLease call.clock tx limit call.ttl

theorem swaps_bounded_iff {newVal : Int} (different : newVal ≠ get now row)
    (started : ∀ call ∈ calls, now ≤ call.start) :
    (∀ schedule, Legal (visible calls) (swaps calls (get now row) newVal) row schedule →
      (returned swapped (outcome (visible calls) (swaps calls (get now row) newVal) row
        schedule)).card ≤ 1) ↔
      calls.length ≤ 1 ∨ get now row ≠ 0 ∨ (Found calls row ∧ Lasting calls) := by
  have one : (swap (get now row) newVal different).left (get now row) = 1 := if_pos rfl
  have zero : (swap (get now row) newVal different).left 0 = 0 ↔ get now row ≠ 0 := by
    change (if 0 = get now row then 1 else 0) = 0 ↔ _
    split_ifs with same
    · simp [same.symm]
    · simp [Ne.symm same]
  have missing : (swap (get now row) newVal different).left 0 ≠ 0 →
      (swap (get now row) newVal different).left (get now row) ≤
        (swap (get now row) newVal different).left 0 := by
    intro writes
    rw [one]
    exact Nat.one_le_iff_ne_zero.mpr writes
  have bound := returned_le_iff swapped
    (fun call tx => compareAndSwap call.clock tx (get now row) newVal call.ttl)
    (fun call tx => compareAndSwap_accepts call.clock (get now row) newVal call.ttl different)
    started missing
  rw [one, zero] at bound
  simp only [Nat.one_ne_zero, false_or] at bound
  exact bound

theorem returned_of_nonpositive {limit : Int} (nonpositive : limit ≤ 0)
    (schedule : List (Nat × Option String)) :
    returned acquired (outcome (visible calls) (acquisitions calls limit) row schedule) = ∅ := by
  have refused : ∀ (tx : Nat) thread, (acquisitions calls limit)[tx]? = some thread →
      thread = .done (.error "limit must be positive") := by
    intro tx thread found
    rw [acquisitions, List.getElem?_mapIdx, Option.map_eq_some_iff] at found
    obtain ⟨call, _, rfl⟩ := found
    rw [acquireLease, if_pos nonpositive]
  rw [outcome, Pool.run_of_finished]
  · refine Finset.filter_eq_empty_iff.mpr fun tx _ => ?_
    cases located : (acquisitions calls limit)[tx]? with
    | none => simp [Pool.start, located, positive]
    | some thread =>
        obtain rfl := refused tx thread located
        simp [Pool.start, located, positive, acquired]
  · intro tx op next found
    cases refused tx _ found

theorem leases_bounded_iff {limit : Int} (natural : 0 ≤ get now row)
    (started : ∀ call ∈ calls, now ≤ call.start) :
    (∀ schedule, Legal (visible calls) (acquisitions calls limit) row schedule →
      (returned acquired (outcome (visible calls) (acquisitions calls limit) row schedule)).card ≤
        (limit - get now row).toNat) ↔
      calls.length ≤ (limit - get now row).toNat ∨ limit ≤ 0 ∨
        (Found calls row ∧ (limit ≤ get now row ∨ Lasting calls)) := by
  by_cases nonpositive : limit ≤ 0
  · refine iff_of_true (fun schedule _ => ?_) (.inr (.inl nonpositive))
    rw [returned_of_nonpositive nonpositive, Finset.card_empty]
    exact Nat.zero_le _
  · have zero : (lease limit).left 0 = 0 ↔ limit ≤ 0 := by
      change (limit - 0).toNat = 0 ↔ _
      omega
    have full : (lease limit).left (get now row) = 0 ↔ limit ≤ get now row := by
      change (limit - get now row).toNat = 0 ↔ _
      omega
    have missing : (lease limit).left 0 ≠ 0 →
        (lease limit).left (get now row) ≤ (lease limit).left 0 := by
      intro _
      change (limit - get now row).toNat ≤ (limit - 0).toNat
      omega
    have bound := returned_le_iff acquired
      (fun call tx => acquireLease call.clock tx limit call.ttl)
      (fun call tx => acquireLease_accepts call.clock (not_le.mp nonpositive) call.ttl) started missing
    rw [zero, full] at bound
    exact bound

end Bounds

/-- The calls on a key whose row reads a value at a time before all of them began. At most
one of the swaps from that value succeeds in every interleaving exactly if there is at
most one, or the value is not zero, or each of them finds the row unexpired, also where
another has written it. At most as many leases are acquired as are left exactly if there
are no more calls, or the limit is not positive, or each of them finds the row unexpired
and either no lease is left or they find it so where another has written it. -/
theorem successes_bounded_iff (row : Option Row) (now : Int) (calls : List Call)
    (started : ∀ call ∈ calls, now ≤ call.start) :
    (∀ oldVal newVal, newVal ≠ oldVal → get now row = oldVal →
      ((∀ schedule, Legal (visible calls) (swaps calls oldVal newVal) row schedule →
        (returned swapped (outcome (visible calls) (swaps calls oldVal newVal) row
          schedule)).card ≤ 1) ↔
        calls.length ≤ 1 ∨ oldVal ≠ 0 ∨ (Found calls row ∧ Lasting calls))) ∧
    (∀ limit, 0 ≤ get now row →
      ((∀ schedule, Legal (visible calls) (acquisitions calls limit) row schedule →
        (returned acquired (outcome (visible calls) (acquisitions calls limit) row
          schedule)).card ≤ (limit - get now row).toNat) ↔
        calls.length ≤ (limit - get now row).toNat ∨ limit ≤ 0 ∨
          (Found calls row ∧ (limit ≤ get now row ∨ Lasting calls)))) := by
  constructor
  · rintro oldVal newVal different rfl
    exact swaps_bounded_iff different started
  · intro limit natural
    exact leases_bounded_iff natural started

/-- Two calls without a TTL on a row that does not expire. -/
theorem successes_bounded_of_lasting :
    let calls : List Call := [⟨5, 4, 0⟩, ⟨5, 4, 0⟩]
    (∀ schedule, Legal (visible calls) (swaps calls 0 1) (some ⟨0, none⟩) schedule →
      (returned swapped (outcome (visible calls) (swaps calls 0 1) (some ⟨0, none⟩)
        schedule)).card ≤ 1) ∧
    ∀ schedule, Legal (visible calls) (acquisitions calls 1) (some ⟨0, none⟩) schedule →
      (returned acquired (outcome (visible calls) (acquisitions calls 1) (some ⟨0, none⟩)
        schedule)).card ≤ 1 := by
  have found : Found [⟨5, 4, 0⟩, ⟨5, 4, 0⟩] (some ⟨0, none⟩) := fun _ _ => rfl
  have lasting : Lasting [⟨5, 4, 0⟩, ⟨5, 4, 0⟩] := by
    intro tx other call reader listed _ _
    have member := List.mem_of_getElem? listed
    simp only [List.mem_cons, List.not_mem_nil, or_false, or_self] at member
    subst member
    rfl
  have bounds := successes_bounded_iff (some ⟨0, none⟩) 5 [⟨5, 4, 0⟩, ⟨5, 4, 0⟩] (by simp)
  exact ⟨(bounds.1 0 1 (by decide) rfl).mpr (.inr (.inr ⟨found, lasting⟩)),
    (bounds.2 1 (by decide)).mpr (.inr (.inr ⟨found, .inr lasting⟩))⟩

/-- Two calls on a missing row: the second selects before the first has inserted, finds
nothing to lock, and inserts over it. Both swaps from 0 to 1 and both acquisitions of
the one lease succeed. -/
theorem both_succeed_on_missing_row :
    let calls : List Call := [⟨5, 4, 0⟩, ⟨5, 4, 0⟩]
    let schedule : List (Nat × Option String) := [0, 0, 1, 1, 0, 0, 0, 1, 1, 1].map fun tx => (tx, none)
    Legal (visible calls) (swaps calls 0 1) none schedule ∧
      returned swapped (outcome (visible calls) (swaps calls 0 1) none schedule) = {0, 1} ∧
      Legal (visible calls) (acquisitions calls 1) none schedule ∧
      returned acquired (outcome (visible calls) (acquisitions calls 1) none schedule) = {0, 1} := by
  decide

end Rlaas.Store.Postgres
