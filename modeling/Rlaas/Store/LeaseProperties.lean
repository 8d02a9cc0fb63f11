import Rlaas.Store.MemoryCells
import Rlaas.Lib.Steps

/-! Runs of `AcquireLease` and `ReleaseLease` on one key. The store keeps one
count and one expiry for all leases of a key; the ledger beside it remembers
every grant. -/

set_option autoImplicit false

namespace Rlaas.Store

open Go Model Effect

/-- A lease that was granted. `counted` says that the count still includes it
unless it was released: it is lost when the entry expires. -/
structure Grant where
  granted : Int
  released : Bool := false
  counted : Bool := true
  deriving DecidableEq

inductive LeaseEvent where
  | acquire
  | release (lease : Nat)

structure LeaseRun where
  store : MemoryStore
  grants : List Grant := []
  clock : Int

namespace LeaseRun

variable (A : Arith) (key : String) (limit : Int) (ttl : Duration)

/-- The ledger after a method has read the entry: an expired one counts nobody. -/
def observed (run : LeaseRun) (now : Int) : List Grant :=
  if (run.store.cells key).lease.expired now then
    run.grants.map fun grant => { grant with counted := false }
  else run.grants

/-- One method call at a reading; leases are numbered in the order of grants. -/
def step (run : LeaseRun) (event : Int × LeaseEvent) : LeaseRun :=
  match event.2 with
  | .acquire =>
      let (answer, store) := run.store.handle A event.1 (.acquireLease key limit ttl)
      { store
        grants :=
          match answer with
          | .ok (true, _) => run.observed key event.1 ++ [{ granted := event.1 }]
          | _ => run.observed key event.1
        clock := event.1 }
  | .release lease =>
      { store := (run.store.handle A event.1 (.releaseLease key)).2
        grants := (run.observed key event.1).modify lease fun grant => { grant with released := true }
        clock := event.1 }

/-- The clock does not run backwards, and only a granted lease that was not
released before is released. -/
def Legal (run : LeaseRun) (event : Int × LeaseEvent) : Prop :=
  run.clock ≤ event.1 ∧
    match event.2 with
    | .acquire => True
    | .release lease => ∃ grant, run.grants[lease]? = some grant ∧ grant.released = false

/-- A release finds its lease still counted, or a count of zero. -/
def Counted (run : LeaseRun) (event : Int × LeaseEvent) : Prop :=
  match event.2 with
  | .acquire => True
  | .release lease =>
      (∃ grant, (run.observed key event.1)[lease]? = some grant ∧ grant.counted = true) ∨
        ((run.store.cells key).lease.live event.1).value = 0

def outstanding (run : LeaseRun) (now : Int) : Nat :=
  run.grants.countP fun grant => !grant.released && decide (now - grant.granted ≤ ttl)

end LeaseRun

def occupied (grants : List Grant) : Nat :=
  grants.countP fun grant => !grant.released && grant.counted

/-- The entry and the ledger agree. Leases that are not counted any more were
granted longer than one TTL ago. -/
private structure Tracks (limit : Int) (ttl : Duration) (lease : ValueItem) (grants : List Grant)
    (clock : Int) : Prop where
  count : lease.value = occupied grants
  full : lease.value ≤ limit
  unarmed : ttl ≤ 0 → lease.expiry = zeroNanos
  past : ∀ grant ∈ grants, grant.granted ≤ clock
  fresh : ∀ grant ∈ grants, grant.counted = true →
    lease.expiry = zeroNanos ∨ grant.granted + ttl ≤ lease.expiry
  stale : ∀ grant ∈ grants, grant.counted = false → grant.granted + ttl < clock

section Tracks

variable {limit : Int} {ttl : Duration} {lease : ValueItem} {grants : List Grant} {clock now : Int}

private theorem Tracks.observed (tracks : Tracks limit ttl lease grants clock) (later : clock ≤ now)
    (positive : 1 ≤ limit) :
    Tracks limit ttl (lease.live now)
      (if lease.expired now then grants.map fun grant => { grant with counted := false } else grants)
      now := by
  cases expired : lease.expired now with
  | false =>
      rw [ValueItem.live, expired]
      exact ⟨tracks.count, tracks.full, tracks.unarmed,
        fun grant member => (tracks.past grant member).trans later, tracks.fresh,
        fun grant member lost => (tracks.stale grant member lost).trans_le later⟩
  | true =>
      have gone : lease.expiry ≠ zeroNanos ∧ lease.expiry < now := by
        simpa [ValueItem.expired] using expired
      rw [ValueItem.live, expired]
      refine ⟨?_, le_trans zero_le_one positive, fun _ => rfl, ?_, ?_, ?_⟩
      · simp [occupied, Function.comp_def]
      · intro grant member
        obtain ⟨earlier, listed, rfl⟩ := List.mem_map.mp member
        exact (tracks.past earlier listed).trans later
      · intro grant member counted
        obtain ⟨earlier, _, rfl⟩ := List.mem_map.mp member
        cases counted
      · intro grant member _
        obtain ⟨earlier, listed, rfl⟩ := List.mem_map.mp member
        cases counted : earlier.counted with
        | false => exact (tracks.stale earlier listed counted).trans_le later
        | true =>
            rcases tracks.fresh earlier listed counted with unset | covered
            · exact absurd unset gone.1
            · exact lt_of_le_of_lt covered gone.2

private theorem Tracks.acquired (tracks : Tracks limit ttl lease grants now)
    (room : lease.value < limit) :
    Tracks limit ttl (ValueItem.arm now ttl { lease with value := lease.value + 1 })
      (grants ++ [{ granted := now }]) now := by
  have armed : (ValueItem.arm now ttl { lease with value := lease.value + 1 }).expiry =
      if ttl > 0 then now + ttl else lease.expiry := by
    unfold ValueItem.arm
    split <;> rfl
  refine ⟨?_, ?_, ?_, ?_, ?_, ?_⟩
  · simp [occupied, tracks.count]
  · rw [ValueItem.arm_value]
    exact room
  · intro endless
    rw [armed, if_neg (not_lt.mpr endless)]
    exact tracks.unarmed endless
  · intro grant member
    rcases List.mem_append.mp member with earlier | latest
    · exact tracks.past grant earlier
    · rw [List.mem_singleton.mp latest]
  · intro grant member _
    rw [armed]
    split
    · have before : grant.granted ≤ now := by
        rcases List.mem_append.mp member with earlier | latest
        · exact tracks.past grant earlier
        · rw [List.mem_singleton.mp latest]
      exact .inr (by omega)
    · next endless => exact .inl (tracks.unarmed (not_lt.mp endless))
  · intro grant member lost
    rcases List.mem_append.mp member with earlier | latest
    · exact tracks.stale grant earlier lost
    · rw [List.mem_singleton.mp latest] at lost
      cases lost

private theorem occupied_release {index : Nat} {grant : Grant} (found : grants[index]? = some grant)
    (held : grant.released = false) :
    occupied (grants.modify index fun grant => { grant with released := true }) +
      grant.counted.toNat = occupied grants := by
  induction grants generalizing index with
  | nil => simp at found
  | cons first rest ih =>
      cases index with
      | zero =>
          rw [List.getElem?_cons_zero, Option.some.injEq] at found
          subst found
          cases counted : first.counted <;> simp [occupied, held, counted]
      | succ index =>
          rw [List.getElem?_cons_succ] at found
          have rest := ih found
          simp only [occupied, List.modify_succ_cons, List.countP_cons] at rest ⊢
          omega

private theorem mem_release {index : Nat} {grant : Grant}
    (member : grant ∈ grants.modify index fun grant => { grant with released := true }) :
    ∃ earlier ∈ grants, grant.granted = earlier.granted ∧ grant.counted = earlier.counted ∧
      (grant.released = false → earlier.released = false) := by
  obtain ⟨place, found⟩ := List.mem_iff_getElem?.mp member
  rw [List.getElem?_modify] at found
  obtain ⟨earlier, listed, same⟩ := Option.map_eq_some_iff.mp found
  refine ⟨earlier, List.mem_of_getElem? listed, ?_⟩
  rw [← same]
  split
  · exact ⟨rfl, rfl, fun held => by cases held⟩
  · exact ⟨rfl, rfl, id⟩

private theorem release_expiry (lease : ValueItem) :
    (if lease.value > 0 then { lease with value := lease.value - 1 } else lease).expiry =
      lease.expiry := by
  split <;> rfl

private theorem Tracks.released (tracks : Tracks limit ttl lease grants now) {index : Nat}
    {grant : Grant} (found : grants[index]? = some grant) (held : grant.released = false)
    (matched : grant.counted = true ∨ lease.value = 0) :
    Tracks limit ttl (if lease.value > 0 then { lease with value := lease.value - 1 } else lease)
      (grants.modify index fun grant => { grant with released := true }) now := by
  have remaining := occupied_release found held
  have count := tracks.count
  have full := tracks.full
  refine ⟨?_, ?_, ?_, ?_, ?_, ?_⟩
  · cases counted : grant.counted with
    | true =>
        rw [counted, Bool.toNat_true] at remaining
        split
        · simp only
          omega
        · omega
    | false =>
        rw [counted, Bool.toNat_false] at remaining
        have zero : lease.value = 0 := matched.resolve_left (by simp [counted])
        rw [if_neg (by omega)]
        omega
  · split
    · simp only
      omega
    · exact full
  · rw [release_expiry]
    exact tracks.unarmed
  · intro other member
    obtain ⟨earlier, listed, granted, _⟩ := mem_release member
    rw [granted]
    exact tracks.past earlier listed
  · intro other member counted
    obtain ⟨earlier, listed, granted, same, _⟩ := mem_release member
    rw [granted, release_expiry]
    exact tracks.fresh earlier listed (same ▸ counted)
  · intro other member lost
    obtain ⟨earlier, listed, granted, same, _⟩ := mem_release member
    rw [granted]
    exact tracks.stale earlier listed (same ▸ lost)

end Tracks

namespace LeaseRun

variable {A : Arith} {key : String} {limit : Int} {ttl : Duration} {run : LeaseRun}

private theorem observed_held {lease : Nat} {now : Int} {grant : Grant}
    (found : run.grants[lease]? = some grant) (held : grant.released = false) :
    ∃ current, (run.observed key now)[lease]? = some current ∧ current.released = false := by
  unfold observed
  split
  · exact ⟨{ grant with counted := false }, by simp [found], held⟩
  · exact ⟨grant, found, held⟩

private theorem tracks_start (positive : 1 ≤ limit) {store : MemoryStore} {clock : Int}
    (absent : (store.cells key).lease = {}) : Tracks limit ttl (store.cells key).lease [] clock := by
  rw [absent]
  exact ⟨rfl, le_trans zero_le_one positive, fun _ => rfl, by simp, by simp, by simp⟩

private theorem step_clock {event : Int × LeaseEvent} (legal : run.Legal event) :
    run.clock ≤ (run.step A key limit ttl event).clock := by
  obtain ⟨now, event⟩ := event
  cases event with
  | acquire => exact legal.1
  | release lease => exact legal.1

private theorem acquire_cases (A : Arith) (key : String) (ttl : Duration) (run : LeaseRun)
    (positive : 1 ≤ limit) (now : Int) :
    let lease := (run.store.cells key).lease.live now
    let next := run.step A key limit ttl (now, .acquire)
    (¬lease.value < limit ∧ (next.store.cells key).lease = lease ∧
        next.grants = run.observed key now) ∨
      (lease.value < limit ∧
        (next.store.cells key).lease =
          ValueItem.arm now ttl { lease with value := lease.value + 1 } ∧
        next.grants = run.observed key now ++ [{ granted := now }]) := by
  have answer := MemoryStore.acquireLease_answer A now key positive ttl run.store
  have lease := MemoryStore.acquireLease_lease A now key positive ttl run.store
  by_cases room : ((run.store.cells key).lease.live now).value < limit
  · rw [if_pos room] at answer lease
    exact .inr ⟨room, lease, by simp only [step, answer]⟩
  · rw [if_neg room] at answer lease
    exact .inl ⟨room, lease, by simp only [step, answer]⟩

private theorem release_lease (A : Arith) (key : String) (limit : Int) (ttl : Duration)
    (run : LeaseRun) (now : Int) (lease : Nat) :
    ((run.step A key limit ttl (now, .release lease)).store.cells key).lease =
      if ((run.store.cells key).lease.live now).value > 0 then
        { (run.store.cells key).lease.live now with
          value := ((run.store.cells key).lease.live now).value - 1 }
      else (run.store.cells key).lease.live now :=
  MemoryStore.releaseLease_lease A now key run.store

private theorem step_tracks (positive : 1 ≤ limit)
    (tracks : Tracks limit ttl (run.store.cells key).lease run.grants run.clock)
    {event : Int × LeaseEvent} (legal : run.Legal event) (counted : run.Counted key event) :
    Tracks limit ttl ((run.step A key limit ttl event).store.cells key).lease
      (run.step A key limit ttl event).grants (run.step A key limit ttl event).clock := by
  obtain ⟨now, event⟩ := event
  have observed : Tracks limit ttl ((run.store.cells key).lease.live now) (run.observed key now) now :=
    tracks.observed legal.1 positive
  cases event with
  | acquire =>
      rcases acquire_cases A key ttl run positive now with ⟨_, lease, grants⟩ | ⟨room, lease, grants⟩
      · rw [lease, grants]
        exact observed
      · rw [lease, grants]
        exact observed.acquired room
  | release lease =>
      rw [release_lease]
      obtain ⟨earlier, listed, unreleased⟩ := legal.2
      obtain ⟨grant, found, held⟩ := observed_held listed unreleased
      refine observed.released found held ?_
      rcases counted with ⟨current, same, included⟩ | empty
      · rw [found, Option.some.injEq] at same
        exact .inl (same ▸ included)
      · exact .inr empty

private theorem outstanding_le {now : Int}
    (tracks : Tracks limit ttl (run.store.cells key).lease run.grants run.clock)
    (later : run.clock ≤ now) : (run.outstanding ttl now : Int) ≤ limit := by
  have within : run.outstanding ttl now ≤ occupied run.grants := by
    refine List.countP_mono_left fun grant member current => ?_
    simp only [Bool.and_eq_true, decide_eq_true_eq] at current ⊢
    refine ⟨current.1, ?_⟩
    cases counted : grant.counted with
    | true => rfl
    | false =>
        have lost := tracks.stale grant member counted
        omega
  have count := tracks.count
  have full := tracks.full
  omega

/-- In every run in which a release finds its own lease still counted, or
nothing counted at all, no more leases are outstanding than the limit. -/
theorem outstanding_le_limit (A : Arith) (key : String) (limit : Int) (ttl : Duration)
    (store : MemoryStore) (clock : Int) (events : List (Int × LeaseEvent)) (now : Int)
    (positive : 1 ≤ limit) (absent : (store.cells key).lease = {})
    (legal : AllSteps (step A key limit ttl) Legal { store, clock } events)
    (counted : AllSteps (step A key limit ttl) (Counted key) { store, clock } events)
    (later : (events.foldl (step A key limit ttl) { store, clock }).clock ≤ now) :
    ((events.foldl (step A key limit ttl) { store, clock }).outstanding ttl now : Int) ≤ limit := by
  have final := foldl_invariant (fun run : LeaseRun =>
      Tracks limit ttl (run.store.cells key).lease run.grants run.clock)
    (fun run event tracks holds => step_tracks positive tracks holds.1 holds.2) events
    { store, clock } (tracks_start positive absent) (legal.and counted)
  exact outstanding_le final later

theorem outstanding_le_limit_of_handover :
    ((([(1, .acquire), (5, .release 0), (6, .acquire)] : List (Int × LeaseEvent)).foldl
      (step .exact "k" 1 10) { store := .newSharded 1, clock := 0 }).outstanding 10 6 : Int) ≤ 1 :=
  outstanding_le_limit .exact "k" 1 10 (.newSharded 1) 0 _ 6 (by decide) rfl
    ⟨⟨by decide, trivial⟩, ⟨by decide, { granted := 1 }, rfl, rfl⟩, ⟨by decide, trivial⟩, trivial⟩
    ⟨trivial, .inl ⟨{ granted := 1 }, rfl, rfl⟩, trivial, trivial⟩ (by decide)

/-- The first lease expires and its slot goes to the second; the late release of
the first takes the second off the count, and a third is granted. -/
theorem outstanding_exceeds_limit :
    AllSteps (step .exact "k" 1 10) Legal { store := .newSharded 1, clock := 0 }
        [(1, .acquire), (12, .acquire), (13, .release 0), (14, .acquire)] ∧
      (([(1, .acquire), (12, .acquire), (13, .release 0), (14, .acquire)] :
        List (Int × LeaseEvent)).foldl (step .exact "k" 1 10)
          { store := .newSharded 1, clock := 0 }).outstanding 10 14 = 2 :=
  ⟨⟨⟨by decide, trivial⟩, ⟨by decide, trivial⟩,
    ⟨by decide, { granted := 1, counted := false }, rfl, rfl⟩, ⟨by decide, trivial⟩, trivial⟩,
    by decide⟩

end LeaseRun

/-- With one slot the entry expires with its only holder. -/
private structure Lone (ttl : Duration) (lease : ValueItem) (grants : List Grant) : Prop where
  expiry : ∀ grant ∈ grants, grant.released = false → grant.counted = true →
    lease.expiry = grant.granted + ttl
  dated : ∀ grant ∈ grants, zeroNanos ≤ grant.granted

section Lone

variable {ttl : Duration} {lease : ValueItem} {grants : List Grant} {now : Int}

private theorem Lone.observed (lone : Lone ttl lease grants) :
    Lone ttl (lease.live now)
      (if lease.expired now then grants.map fun grant => { grant with counted := false }
        else grants) := by
  cases expired : lease.expired now with
  | false =>
      rw [ValueItem.live, expired]
      exact lone
  | true =>
      refine ⟨fun grant member _ counted => ?_, fun grant member => ?_⟩
      · obtain ⟨earlier, _, rfl⟩ := List.mem_map.mp member
        cases counted
      · obtain ⟨earlier, listed, rfl⟩ := List.mem_map.mp member
        exact lone.dated earlier listed

private theorem not_held_of_occupied {grant : Grant} (empty : occupied grants = 0)
    (member : grant ∈ grants) (held : grant.released = false) : grant.counted = false := by
  have free := List.countP_eq_zero.mp empty grant member
  simpa [held] using free

private theorem Lone.acquired (lone : Lone ttl lease grants) (positive : 0 < ttl)
    (empty : occupied grants = 0) (dated : zeroNanos ≤ now) :
    Lone ttl (ValueItem.arm now ttl { lease with value := lease.value + 1 })
      (grants ++ [{ granted := now }]) := by
  refine ⟨fun grant member held counted => ?_, fun grant member => ?_⟩
  · rcases List.mem_append.mp member with earlier | latest
    · rw [not_held_of_occupied empty earlier held] at counted
      cases counted
    · rw [List.mem_singleton.mp latest, ValueItem.arm, if_pos positive]
  · rcases List.mem_append.mp member with earlier | latest
    · exact lone.dated grant earlier
    · rw [List.mem_singleton.mp latest]
      exact dated

private theorem Lone.released (lone : Lone ttl lease grants) (index : Nat) :
    Lone ttl (if lease.value > 0 then { lease with value := lease.value - 1 } else lease)
      (grants.modify index fun grant => { grant with released := true }) := by
  refine ⟨fun grant member held counted => ?_, fun grant member => ?_⟩
  · obtain ⟨earlier, listed, granted, same, before⟩ := mem_release member
    rw [granted, release_expiry]
    exact lone.expiry earlier listed (before held) (same ▸ counted)
  · obtain ⟨earlier, listed, granted, _, _⟩ := mem_release member
    rw [granted]
    exact lone.dated earlier listed

end Lone

namespace LeaseRun

variable {A : Arith} {key : String} {limit : Int} {ttl : Duration} {run : LeaseRun}

/-- A lease is released within its own TTL. -/
def Prompt (ttl : Duration) (run : LeaseRun) (event : Int × LeaseEvent) : Prop :=
  match event.2 with
  | .acquire => True
  | .release lease => ∃ grant, run.grants[lease]? = some grant ∧ event.1 - grant.granted ≤ ttl

/-- A release within the lease's TTL finds the lease still counted. -/
private theorem counted_of_prompt
    (tracks : Tracks limit ttl (run.store.cells key).lease run.grants run.clock)
    {event : Int × LeaseEvent} (legal : run.Legal event) (prompt : run.Prompt ttl event) :
    run.Counted key event := by
  obtain ⟨now, event⟩ := event
  cases event with
  | acquire => trivial
  | release lease =>
      obtain ⟨grant, found, within⟩ := prompt
      have ordered : run.clock ≤ now := legal.1
      have member := List.mem_of_getElem? found
      have counted : grant.counted = true := by
        cases lost : grant.counted with
        | true => rfl
        | false =>
            have stale := tracks.stale grant member lost
            simp only at within
            omega
      refine .inl ⟨grant, ?_, counted⟩
      have unexpired : (run.store.cells key).lease.expired now = false := by
        simp only [ValueItem.expired, Bool.and_eq_false_iff, decide_eq_false_iff_not, not_not, not_lt]
        rcases tracks.fresh grant member counted with unset | covered
        · exact .inl unset
        · simp only at within
          exact .inr (by omega)
      simpa [observed, unexpired] using found

private theorem step_lone (positive : 0 < ttl)
    (tracks : Tracks 1 ttl (run.store.cells key).lease run.grants run.clock)
    (lone : Lone ttl (run.store.cells key).lease run.grants) (dated : zeroNanos ≤ run.clock)
    {event : Int × LeaseEvent} (legal : run.Legal event) :
    Lone ttl ((run.step A key 1 ttl event).store.cells key).lease
      (run.step A key 1 ttl event).grants := by
  obtain ⟨now, event⟩ := event
  have observed : Lone ttl ((run.store.cells key).lease.live now) (run.observed key now) :=
    lone.observed
  have counts : Tracks 1 ttl ((run.store.cells key).lease.live now) (run.observed key now) now :=
    tracks.observed legal.1 le_rfl
  cases event with
  | acquire =>
      rcases acquire_cases A key ttl run le_rfl now with ⟨_, lease, grants⟩ | ⟨room, lease, grants⟩
      · rw [lease, grants]
        exact observed
      · rw [lease, grants]
        have count := counts.count
        exact observed.acquired positive (by omega) (dated.trans legal.1)
  | release lease =>
      rw [release_lease]
      exact observed.released lease

/-- With one slot, a lease that nobody has released expires with its TTL. -/
private theorem free_of_lone (positive : 0 < ttl)
    (tracks : Tracks 1 ttl (run.store.cells key).lease run.grants run.clock)
    (lone : Lone ttl (run.store.cells key).lease run.grants) {now : Int} (later : run.clock ≤ now)
    (none : run.outstanding ttl now = 0) :
    ((run.store.cells key).lease.live now).value < 1 := by
  have count := (tracks.observed later le_rfl).count
  have empty : occupied (if (run.store.cells key).lease.expired now then
      run.grants.map fun grant => { grant with counted := false } else run.grants) = 0 := by
    refine List.countP_eq_zero.mpr fun grant member held => ?_
    simp only [Bool.and_eq_true, Bool.not_eq_true'] at held
    cases expired : (run.store.cells key).lease.expired now with
    | true =>
        rw [expired] at member
        obtain ⟨earlier, _, rfl⟩ := List.mem_map.mp member
        cases held.2
    | false =>
        rw [expired] at member
        have expiry := lone.expiry grant member held.1 held.2
        have dated := lone.dated grant member
        have past := List.countP_eq_zero.mp none grant member
        simp only [held.1, Bool.not_false, Bool.true_and, decide_eq_true_eq, not_le] at past
        simp only [ValueItem.expired, expiry, Bool.and_eq_false_iff, decide_eq_false_iff_not,
          not_not, not_lt] at expired
        have armed : (0 : Int) < ttl := positive
        omega
  omega

private theorem acquire_step (A : Arith) (key : String) (ttl : Duration) (run : LeaseRun)
    (positive : 1 ≤ limit) (now : Int) (unexpired : (run.store.cells key).lease.expired now = false)
    (room : (run.store.cells key).lease.value < limit) :
    (run.step A key limit ttl (now, .acquire)).grants = run.grants ++ [{ granted := now }] ∧
      ((run.step A key limit ttl (now, .acquire)).store.cells key).lease =
        { value := (run.store.cells key).lease.value + 1
          expiry := if 0 < ttl then now + ttl else (run.store.cells key).lease.expiry } ∧
      ((run.step A key limit ttl (now, .acquire)).store.cells key).lease.expired now = false := by
  have live : (run.store.cells key).lease.live now = (run.store.cells key).lease :=
    ValueItem.live_of_unexpired unexpired
  have moved := acquire_cases A key ttl run positive now
  simp only [live, room, not_true_eq_false, false_and, false_or, true_and] at moved
  have lease : ((run.step A key limit ttl (now, .acquire)).store.cells key).lease =
      { value := (run.store.cells key).lease.value + 1
        expiry := if 0 < ttl then now + ttl else (run.store.cells key).lease.expiry } := by
    rw [moved.1, ValueItem.arm]
    split <;> rfl
  refine ⟨?_, lease, ?_⟩
  · simp [moved.2, observed, unexpired]
  · rw [lease]
    by_cases armed : 0 < ttl
    · simp [ValueItem.expired, armed, le_of_lt armed]
    · simpa [ValueItem.expired, armed] using unexpired

private theorem acquires_at (A : Arith) (ttl : Duration) (positive : 1 ≤ limit) (now : Int)
    (count : Nat) (later : run.clock ≤ now) (unexpired : (run.store.cells key).lease.expired now = false)
    (room : (run.store.cells key).lease.value + count ≤ limit) :
    let events := List.replicate count (now, LeaseEvent.acquire)
    let final := events.foldl (step A key limit ttl) run
    AllSteps (step A key limit ttl) Legal run events ∧
      AllSteps (step A key limit ttl) (Prompt ttl) run events ∧
      final.grants = run.grants ++ List.replicate count { granted := now } ∧
      (final.store.cells key).lease =
        { value := (run.store.cells key).lease.value + count
          expiry := if 0 < count ∧ 0 < ttl then now + ttl else (run.store.cells key).lease.expiry } ∧
      final.clock ≤ now := by
  induction count generalizing run with
  | zero => simpa [AllSteps] using later
  | succ count ih =>
      push_cast at room
      obtain ⟨grants, lease, fresh⟩ := acquire_step A key ttl run positive now unexpired (by omega)
      have clock : (run.step A key limit ttl (now, .acquire)).clock ≤ now := le_rfl
      obtain ⟨legal, prompt, grants', lease', clock'⟩ := ih clock fresh (by
        rw [lease]
        simp only
        omega)
      simp only [List.replicate_succ, List.foldl_cons]
      refine ⟨⟨⟨later, trivial⟩, legal⟩, ⟨trivial, prompt⟩, ?_, ?_, clock'⟩
      · rw [grants', grants, List.append_assoc, List.singleton_append]
      · rw [lease', lease]
        simp only [ValueItem.mk.injEq, Nat.cast_add, Nat.cast_one, Nat.zero_lt_succ, true_and]
        refine ⟨by omega, ?_⟩
        by_cases armed : 0 < ttl
        · simp [armed]
        · simp [armed]

/-- One lease, and the other slots taken as late as the first lease lives: just
after that the first is overdue, and still counted. -/
private theorem refused_of_overdue (A : Arith) (key : String) (positive : 1 ≤ limit)
    (several : limit = 1 → ttl ≤ 0) :
    ∃ events : List (Int × LeaseEvent), ∃ now : Int,
      let start : LeaseRun := { store := .newSharded 1, clock := 0 }
      let final := events.foldl (step A key limit ttl) start
      AllSteps (step A key limit ttl) Legal start events ∧
        AllSteps (step A key limit ttl) (Prompt ttl) start events ∧ final.clock ≤ now ∧
        (final.outstanding ttl now : Int) < limit ∧
        limit ≤ ((final.store.cells key).lease.live now).value := by
  obtain ⟨others, rfl⟩ : ∃ others : Nat, limit = others + 1 := ⟨(limit - 1).toNat, by omega⟩
  obtain ⟨last, ends⟩ : ∃ last : Int, last = max ttl 0 := ⟨_, rfl⟩
  have early : (0 : Int) ≤ last := ends ▸ le_max_right ttl 0
  have overdue : ¬last + 1 - 0 ≤ ttl := by
    have bound : ttl ≤ last := ends ▸ le_max_left ttl 0
    omega
  obtain ⟨grants, lease, _⟩ := acquire_step A key ttl { store := .newSharded 1, clock := 0 }
    positive 0 rfl (lt_of_lt_of_le one_pos positive)
  have expiry : ttl ≤ 0 ∨ 0 < ttl ∧ last = ttl := by
    rcases le_or_gt ttl 0 with endless | armed
    · exact .inl endless
    · exact .inr ⟨armed, ends.trans (max_eq_left armed.le)⟩
  have unexpired : ((step A key (others + 1) ttl { store := .newSharded 1, clock := 0 }
      (0, .acquire)).store.cells key).lease.expired last = false := by
    rw [lease]
    rcases expiry with endless | ⟨armed, same⟩
    · simp [ValueItem.expired, not_lt.mpr endless, MemoryStore.newSharded_cells]
    · simp [ValueItem.expired, armed, same]
  obtain ⟨legal, prompt, grants', lease', clock'⟩ := acquires_at A ttl positive last others early
    unexpired (by
      rw [lease]
      exact le_of_eq (add_comm _ _))
  refine ⟨(0, .acquire) :: List.replicate others (last, .acquire), last + 1,
    ⟨⟨le_rfl, trivial⟩, legal⟩, ⟨trivial, prompt⟩, ?_, ?_, ?_⟩
  · rw [List.foldl_cons]
    omega
  · rw [List.foldl_cons, outstanding, grants', grants]
    have rest := List.countP_le_length (p := fun grant : Grant => !grant.released &&
      decide (last + 1 - grant.granted ≤ ttl)) (l := List.replicate others { granted := last })
    rw [List.length_replicate] at rest
    simp only [List.nil_append, List.singleton_append, List.countP_cons, Bool.not_false,
      Bool.true_and, decide_eq_true_eq, if_neg overdue]
    omega
  · have more : 0 < ttl → 0 < others := by
      intro armed
      rcases Nat.eq_zero_or_pos others with none | some
      · exact absurd armed (not_lt.mpr (several (by simp [none])))
      · exact some
    rw [List.foldl_cons, lease', lease, ValueItem.live, if_neg]
    · simp [MemoryStore.newSharded_cells, add_comm]
    · rcases expiry with endless | ⟨armed, same⟩
      · simp [ValueItem.expired, not_lt.mpr endless, MemoryStore.newSharded_cells]
      · simp [ValueItem.expired, more armed, armed]

/-- Acquiring succeeds whenever fewer leases of the last TTL are unreleased than
the limit says, in every run of releases within the TTL, exactly if the limit
allows one lease of a positive TTL, or none. -/
theorem acquire_succeeds_iff (A : Arith) (key : String) (limit : Int) (ttl : Duration) :
    (∀ (store : MemoryStore) (clock : Int) (events : List (Int × LeaseEvent)) (now : Int),
      zeroNanos ≤ clock → (store.cells key).lease = {} →
      AllSteps (step A key limit ttl) Legal { store, clock } events →
      AllSteps (step A key limit ttl) (Prompt ttl) { store, clock } events →
      (events.foldl (step A key limit ttl) { store, clock }).clock ≤ now →
      ((events.foldl (step A key limit ttl) { store, clock }).outstanding ttl now : Int) < limit →
      ∃ current, ((events.foldl (step A key limit ttl) { store, clock }).store.handle A now
        (.acquireLease key limit ttl)).1 = .ok (true, current)) ↔
      limit ≤ 0 ∨ limit = 1 ∧ 0 < ttl := by
  constructor
  · intro succeeds
    by_contra several
    push Not at several
    obtain ⟨positive, endless⟩ := several
    obtain ⟨events, now, legal, prompt, later, fewer, full⟩ :=
      refused_of_overdue A key positive endless
    obtain ⟨current, granted⟩ := succeeds (.newSharded 1) 0 events now (by decide) rfl legal prompt
      later fewer
    rw [MemoryStore.acquireLease_answer A now key positive, if_neg (not_lt.mpr full)] at granted
    cases granted
  · rintro (none | ⟨rfl, positive⟩) store clock events now dated absent legal prompt later fewer
    · omega
    · have final := foldl_invariant (fun run : LeaseRun =>
          Tracks 1 ttl (run.store.cells key).lease run.grants run.clock ∧
            Lone ttl (run.store.cells key).lease run.grants ∧ zeroNanos ≤ run.clock)
        (fun run event kept holds => ⟨step_tracks le_rfl kept.1 holds.1
            (counted_of_prompt kept.1 holds.1 holds.2),
          step_lone positive kept.1 kept.2.1 kept.2.2 holds.1,
          kept.2.2.trans (step_clock holds.1)⟩) events { store, clock }
        ⟨tracks_start le_rfl absent, by rw [absent]; exact ⟨by simp, by simp⟩, dated⟩
        (legal.and prompt)
      have none := Nat.lt_one_iff.mp (Nat.cast_lt.mp (fewer.trans_eq Nat.cast_one.symm))
      have free := free_of_lone positive final.1 final.2.1 later none
      rw [MemoryStore.acquireLease_answer A now key one_pos, if_pos free]
      exact ⟨_, rfl⟩

/-- The first of two leases was granted more than a TTL ago and never released;
only the second is outstanding, and the entry still counts both. -/
theorem acquire_refused_of_abandoned :
    AllSteps (step .exact "k" 2 10) Legal { store := .newSharded 1, clock := 0 }
        [(1, .acquire), (11, .acquire)] ∧
      AllSteps (step .exact "k" 2 10) (Prompt 10) { store := .newSharded 1, clock := 0 }
        [(1, .acquire), (11, .acquire)] ∧
      (([(1, .acquire), (11, .acquire)] : List (Int × LeaseEvent)).foldl (step .exact "k" 2 10)
        { store := .newSharded 1, clock := 0 }).outstanding 10 12 = 1 ∧
      ((([(1, .acquire), (11, .acquire)] : List (Int × LeaseEvent)).foldl (step .exact "k" 2 10)
        { store := .newSharded 1, clock := 0 }).store.handle .exact 12
          (.acquireLease "k" 2 10)).1 = .ok (false, 2) :=
  ⟨⟨⟨by decide, trivial⟩, ⟨by decide, trivial⟩, trivial⟩, ⟨trivial, trivial, trivial⟩, by decide, rfl⟩

end LeaseRun

end Rlaas.Store
