import Rlaas.Engine.AcquireProperties
import Rlaas.Engine.ResolutionProperties
import Rlaas.Key.ScopeKeyProperties
import Rlaas.Lib.Steps

/-! Slots of one concurrency policy: what the acquire path hands out, and what
calls of `Evaluate` between acquires and releases do to the lease counter. -/

set_option autoImplicit false

namespace Rlaas.Engine

open Go Model Store Algorithm Key Effect

/-- The lease counter of a policy. -/
def leaseKey (builder : DefaultBuilder) (policy : Policy) : String :=
  scopeKey builder policy ++ ":concurrency"

/-- Answers of a policy side that knows at most one policy. -/
def Offers (policy : Policy) : (op : PolicyOp) → PolicyRes op → Prop
  | .cacheGet _, answer => ∀ listed, answer = some listed → ∀ p ∈ listed, p = policy
  | .loadPolicies _, answer => ∀ listed, answer = .ok listed → ∀ p ∈ listed, p = policy
  | .now, _ => True
  | .cacheSet .., _ => True

/-- A resolution that has no winner, or the policy with its own key. -/
def Governed (builder : DefaultBuilder) (policy : Policy)
    (picked : Except String (Option (Policy × String))) : Prop :=
  ∀ winner keyStr, picked = .ok (some (winner, keyStr)) →
    winner = policy ∧ keyStr = scopeKey builder policy

theorem selectPolicy_governed (builder : DefaultBuilder) {policy : Policy} (now : Time)
    (req : RequestContext) {listed : List Policy} (known : ∀ p ∈ listed, p = policy) :
    Governed builder policy (selectPolicy builder now req listed) := by
  intro winner keyStr selected
  rw [selectPolicy_eq] at selected
  obtain ⟨chosen, won, pair⟩ := Option.map_eq_some_iff.mp (Except.ok.inj selected)
  obtain ⟨rfl, rfl⟩ := Prod.mk.inj pair
  obtain ⟨candidate, matched⟩ := List.mem_filter.mp (List.argmax_mem won)
  obtain rfl := known chosen (List.mem_filter.mp candidate).1
  exact ⟨rfl, build_eq_scopeKey builder matched⟩

/-- A resolution, all of it within one state of the caller. -/
def picking {S : Type} (builder : DefaultBuilder) (policy : Policy) (initial : S) :
    Monitor PolicyOp PolicyRes S (Except String (Option (Policy × String))) where
  expects _ := Offers policy
  guard state _ := state = initial
  advance state _ _ := state
  accept state picked := state = initial ∧ Governed builder policy picked

theorem pickPolicy_accepts {S : Type} (builder : DefaultBuilder) (policy : Policy)
    (req : RequestContext) (initial : S) :
    (picking builder policy initial).Accepts initial (pickPolicy builder req) := by
  refine ⟨rfl, fun now _ => ⟨rfl, fun hit offered => ?_⟩⟩
  cases hit with
  | some listed => exact ⟨rfl, selectPolicy_governed builder now req (offered listed rfl)⟩
  | none =>
      refine ⟨rfl, fun loaded offered => ?_⟩
      cases loaded with
      | error message =>
          refine ⟨rfl, fun winner keyStr failed => ?_⟩
          cases failed
      | ok listed =>
          exact ⟨rfl, fun _ _ => ⟨rfl, selectPolicy_governed builder now req (offered listed rfl)⟩⟩

/-- The release callback of a granted lease. -/
def releaseOf (key : String) : Program EngineOp EngineRes (Except String Unit) :=
  .call (.env (.store (.releaseLease key))) .done

/-- Whatever the environment answers, the callback of a lease does nothing or
releases a lease. -/
theorem startConcurrencyLease_release {A : Arith} {engine : DefaultEngine} {req : RequestContext}
    {events : List (Event EngineOp EngineRes)} {start : LeaseStart}
    (run : (engine.startConcurrencyLease A req).Runs events start) :
    start.release = .done (.ok ()) ∨ ∃ key, start.release = releaseOf key := by
  obtain ⟨_, picked, _, _, _, run⟩ := run.of_bind
  unfold leaseStartPicked at run
  rcases picked with message | _ | ⟨policy, keyStr⟩
  · cases run with
    | done => exact .inl rfl
  · cases run with
    | done => exact .inl rfl
  · dsimp only at run
    split_ifs at run
    · obtain ⟨_, decision, _, _, _, ended⟩ := run.of_bind
      cases ended with
      | done => exact .inl rfl
    · cases run with
      | @call _ _ answer _ _ ended =>
          cases ended with
          | done =>
              rcases answer with message | ⟨granted, current⟩
              · exact .inl rfl
              · cases granted with
                | false => exact .inl rfl
                | true => exact .inr ⟨_, rfl⟩

section Client

/-- The calls made on a client and on the release callbacks it has handed out. -/
inductive ClientCall where
  | evaluate (req : RequestContext)
  | startConcurrencyLease (req : RequestContext)
  | release (lease : Nat)

structure Handed where
  release : Program EngineOp EngineRes (Except String Unit)
  called : Bool := false

structure ClientRun (π : Type) where
  side : π
  store : MemoryStore
  handed : List Handed := []

namespace ClientRun

variable {π : Type} (policies : Handler PolicyOp PolicyRes π Time) (A : Arith)
  (engine : DefaultEngine)

/-- One call, with the readings of the clock it makes. -/
def step (run : ClientRun π) (call : (Nat → Time) × ClientCall) : ClientRun π :=
  let env := engineEnv policies (MemoryStore.env A)
  match call with
  | (clock, .evaluate req) =>
      let (_, side, store) := (engine.evaluate req).exec env clock (run.side, run.store)
      { run with side, store }
  | (clock, .startConcurrencyLease req) =>
      let (start, side, store) := (engine.startConcurrencyLease A req).exec env clock
        (run.side, run.store)
      { side, store, handed := run.handed ++ [{ release := start.release }] }
  | (clock, .release lease) =>
      match run.handed[lease]? with
      | none => run
      | some handed =>
          let (_, side, store) := handed.release.exec env clock (run.side, run.store)
          { side, store, handed := run.handed.set lease { handed with called := true } }

/-- A callback is called once, and after it was handed out. -/
def Legal (run : ClientRun π) (call : (Nat → Time) × ClientCall) : Prop :=
  match call.2 with
  | .release lease => ∃ release, run.handed[lease]? = some { release }
  | _ => True

/-- The call is made within the time a lease lasts, counted from `first`. -/
def Within (policy : Policy) (first : Int) (_ : ClientRun π) (call : (Nat → Time) × ClientCall) :
    Prop :=
  ∀ n, first ≤ (call.1 n).nanos ∧ (call.1 n).nanos ≤ first + leaseDuration A policy.algorithm

/-- The call is a check that the policy governs, made while the counter is below
the limit. -/
def takesSlot (policy : Policy) (run : ClientRun π) (call : (Nat → Time) × ClientCall) : Bool :=
  match call with
  | (clock, .evaluate req) =>
      let picking := pickPolicy engine.keyBuilder req
      match (picking.exec policies clock run.side).1 with
      | .ok (some _) =>
          let now := clock (picking.events policies clock run.side).length
          let lease := (run.store.cells (leaseKey engine.keyBuilder policy)).lease
          decide ((lease.live now.nanos).value < leaseLimit policy.algorithm)
      | _ => false
  | _ => false

end ClientRun

variable {π : Type} {policies : Handler PolicyOp PolicyRes π Time} {A : Arith}
  {builder : DefaultBuilder} {policy : Policy}

theorem pickPolicy_governed (builder : DefaultBuilder)
    (served : ∀ time op side, Offers policy op (policies time op side).1) (req : RequestContext)
    (clock : Nat → Time) (side : π) :
    Governed builder policy ((pickPolicy builder req).exec policies clock side).1 :=
  ((pickPolicy_accepts builder policy req ()).exec (fun _ _ => True) (fun _ => True)
    (fun _ side time op _ _ _ => ⟨served time op side, trivial⟩) clock (fun _ => trivial) trivial).2.2

section Outcomes

variable (A : Arith) (builder : DefaultBuilder)
  (concurrency : policy.algorithm.type = .concurrency)
  (served : ∀ time op side, Offers policy op (policies time op side).1) (atomic : Bool)
  (req : RequestContext) (clock : Nat → Time) (side : π) (store : MemoryStore)

include concurrency served

/-- `Evaluate` acquires a lease of the policy if that governs the request. -/
theorem evaluate_store :
    (((standardEngine A atomic builder).evaluate req).exec
        (engineEnv policies (MemoryStore.env A)) clock (side, store)).2.2 =
      match ((pickPolicy builder req).exec policies clock side).1 with
      | .ok (some _) =>
          (store.handle A
            (clock ((pickPolicy builder req).events policies clock side).length).nanos
            (.acquireLease (leaseKey builder policy) (leaseLimit policy.algorithm)
              (leaseDuration A policy.algorithm))).2
      | _ => store := by
  have governed := pickPolicy_governed builder served req clock side
  have keys : (standardEngine A atomic builder).keyBuilder = builder := rfl
  rw [DefaultEngine.evaluate, keys, exec_resolved]
  cases picked : ((pickPolicy builder req).exec policies clock side).1 with
  | error message => rfl
  | ok found =>
      cases found with
      | none => rfl
      | some winner =>
          obtain ⟨winner, keyStr⟩ := winner
          obtain ⟨rfl, rfl⟩ := governed winner keyStr picked
          rw [evaluatePicked_exec atomic concurrency, concurrency_exec, Nat.zero_add]
          rfl

theorem startConcurrencyLease_effect :
    let started := ((standardEngine A atomic builder).startConcurrencyLease A req).exec
      (engineEnv policies (MemoryStore.env A)) clock (side, store)
    (started.2.2 = store ∧ started.1.release = .done (.ok ())) ∨
      ∃ now, started.2.2 = (store.handle A (clock now).nanos (.acquireLease
          (leaseKey builder policy) (leaseLimit policy.algorithm)
          (leaseDuration A policy.algorithm))).2 ∧
        started.1.release =
          if ((store.cells (leaseKey builder policy)).lease.live (clock now).nanos).value <
              leaseLimit policy.algorithm then releaseOf (leaseKey builder policy)
          else .done (.ok ()) := by
  have governed := pickPolicy_governed builder served req clock side
  have keys : (standardEngine A atomic builder).keyBuilder = builder := rfl
  rw [DefaultEngine.startConcurrencyLease, keys, exec_resolved]
  cases picked : ((pickPolicy builder req).exec policies clock side).1 with
  | error message => exact .inl ⟨rfl, rfl⟩
  | ok found =>
      cases found with
      | none => exact .inl ⟨rfl, rfl⟩
      | some winner =>
          obtain ⟨winner, keyStr⟩ := winner
          obtain ⟨rfl, rfl⟩ := governed winner keyStr picked
          refine .inr ⟨((pickPolicy builder req).events policies clock side).length, ?_⟩
          rw [leaseStartPicked_exec _ concurrency, Nat.zero_add]
          refine ⟨rfl, ?_⟩
          have answer := MemoryStore.acquireLease_answer A
            (clock ((pickPolicy builder req).events policies clock side).length).nanos
            (leaseKey builder winner) (leaseLimit_pos winner.algorithm)
            (leaseDuration A winner.algorithm) store
          rw [leaseKey] at answer ⊢
          simp only [answer]
          split_ifs <;> rfl

end Outcomes

def Handed.outstanding (handed : Handed) : Bool :=
  match handed.release with
  | .done _ => false
  | .call .. => !handed.called

namespace ClientRun

variable {next : ClientRun π}

/-- The entry counts every lease with a callback to be called, and lasts as long
as the calls do. -/
structure Kept (key : String) (first last : Int) (run : ClientRun π) : Prop where
  unexpired : ∀ now, first ≤ now → now ≤ last → (run.store.cells key).lease.expired now = false
  counted : (run.handed.countP Handed.outstanding : Int) ≤ (run.store.cells key).lease.value
  callbacks : ∀ handed ∈ run.handed, handed.release = .done (.ok ()) ∨ handed.release = releaseOf key

/-- What the entry counts beyond the leases that have a callback. -/
def surplus (key : String) (run : ClientRun π) : Int :=
  (run.store.cells key).lease.value - run.handed.countP Handed.outstanding

variable {run : ClientRun π} {key : String} {first last limit : Int} {ttl : Duration}

theorem lease_after_acquire (A : Arith) (positive : 0 < limit) {now : Int} (early : first ≤ now)
    {store : MemoryStore} (fresh : (store.cells key).lease.expired now = false)
    (unexpired : ∀ later, first ≤ later → later ≤ first + ttl →
      (store.cells key).lease.expired later = false) :
    ((((store.handle A now (.acquireLease key limit ttl)).2).cells key).lease.value =
        (store.cells key).lease.value +
          if ((store.cells key).lease.live now).value < limit then 1 else 0) ∧
      ∀ later, first ≤ later → later ≤ first + ttl →
        (((store.handle A now (.acquireLease key limit ttl)).2).cells key).lease.expired later =
          false := by
  rw [MemoryStore.acquireLease_lease A now key positive, ValueItem.live_of_unexpired fresh]
  split_ifs
  · refine ⟨ValueItem.arm_value now ttl _, fun later after before => ?_⟩
    exact ValueItem.arm_unexpired (unexpired later after before) (fun _ => by omega) _
  · exact ⟨(add_zero _).symm, unexpired⟩

theorem Kept.unmoved (kept : Kept key first last run) (handed : next.handed = run.handed)
    (store : next.store = run.store) :
    Kept key first last next ∧ next.surplus key = run.surplus key := by
  refine ⟨⟨store ▸ kept.unexpired, ?_, handed ▸ kept.callbacks⟩, ?_⟩
  · rw [handed, store]
    exact kept.counted
  · rw [surplus, surplus, handed, store]

theorem Kept.moved (kept : Kept key first last run) (handed : next.handed = run.handed)
    {taken : Int} (forward : 0 ≤ taken)
    (value : (next.store.cells key).lease.value = (run.store.cells key).lease.value + taken)
    (unexpired : ∀ now, first ≤ now → now ≤ last →
      (next.store.cells key).lease.expired now = false) :
    Kept key first last next ∧ next.surplus key = run.surplus key + taken := by
  refine ⟨⟨unexpired, ?_, handed ▸ kept.callbacks⟩, ?_⟩
  · rw [handed, value]
    exact le_add_of_le_of_nonneg kept.counted forward
  · rw [surplus, surplus, handed, value]
    omega

theorem Kept.handedOut (kept : Kept key first last run)
    {release : Program EngineOp EngineRes (Except String Unit)} (taken : Bool)
    (handed : next.handed = run.handed ++ [{ release := release }])
    (callback : release = if taken then releaseOf key else .done (.ok ()))
    (value : (next.store.cells key).lease.value =
      (run.store.cells key).lease.value + if taken then 1 else 0)
    (unexpired : ∀ now, first ≤ now → now ≤ last →
      (next.store.cells key).lease.expired now = false) :
    Kept key first last next ∧ next.surplus key = run.surplus key := by
  have counted := kept.counted
  have more : (next.handed.countP Handed.outstanding : Int) =
      run.handed.countP Handed.outstanding + if taken then 1 else 0 := by
    rw [handed, callback, List.countP_append]
    cases taken <;> simp [Handed.outstanding, releaseOf]
  refine ⟨⟨unexpired, by omega, ?_⟩, ?_⟩
  · intro other member
    rw [handed] at member
    rcases List.mem_append.mp member with before | last
    · exact kept.callbacks other before
    · rw [List.mem_singleton.mp last, callback]
      cases taken
      · exact .inl rfl
      · exact .inr rfl
  · rw [surplus, surplus, more, value]
    omega

section Step

variable (concurrency : policy.algorithm.type = .concurrency)
  (served : ∀ time op side, Offers policy op (policies time op side).1)
  (kept : Kept (leaseKey builder policy) first (first + leaseDuration A policy.algorithm) run)
  {clock : Nat → Time}
  (within : ∀ n, first ≤ (clock n).nanos ∧
    (clock n).nanos ≤ first + leaseDuration A policy.algorithm)

include concurrency served kept within

theorem evaluate_kept (atomic : Bool) (req : RequestContext) :
    let next := run.step policies A (standardEngine A atomic builder) (clock, .evaluate req)
    Kept (leaseKey builder policy) first (first + leaseDuration A policy.algorithm) next ∧
      next.surplus (leaseKey builder policy) = run.surplus (leaseKey builder policy) +
        if takesSlot policies (standardEngine A atomic builder) policy run (clock, .evaluate req)
        then 1 else 0 := by
  have effect := evaluate_store A builder concurrency served atomic req clock run.side run.store
  have keys : (standardEngine A atomic builder).keyBuilder = builder := rfl
  simp only [step, takesSlot, keys]
  cases picked : ((pickPolicy builder req).exec policies clock run.side).1 with
  | error message =>
      simp only [picked] at effect
      simp only [effect, Bool.false_eq_true, if_false, add_zero]
      exact kept.unmoved rfl rfl
  | ok found =>
      cases found with
      | none =>
          simp only [picked] at effect
          simp only [effect, Bool.false_eq_true, if_false, add_zero]
          exact kept.unmoved rfl rfl
      | some winner =>
          simp only [picked] at effect
          rw [effect]
          obtain ⟨early, late⟩ := within
            ((pickPolicy builder req).events policies clock run.side).length
          obtain ⟨value, unexpired⟩ := lease_after_acquire A (leaseLimit_pos policy.algorithm) early
            (kept.unexpired _ early late) kept.unexpired
          simp only [decide_eq_true_eq]
          apply kept.moved
          · rfl
          · split_ifs <;> decide
          · exact value
          · exact unexpired

theorem startConcurrencyLease_kept (atomic : Bool) (req : RequestContext) :
    let next := run.step policies A (standardEngine A atomic builder)
      (clock, .startConcurrencyLease req)
    Kept (leaseKey builder policy) first (first + leaseDuration A policy.algorithm) next ∧
      next.surplus (leaseKey builder policy) = run.surplus (leaseKey builder policy) := by
  have effect := startConcurrencyLease_effect A builder concurrency served atomic req clock run.side
    run.store
  simp only [step]
  rcases effect with ⟨same, noop⟩ | ⟨now, acquired, granted⟩
  · rw [same]
    apply kept.handedOut false
    · rfl
    · exact noop
    · exact (add_zero _).symm
    · exact kept.unexpired
  · rw [acquired]
    obtain ⟨early, late⟩ := within now
    obtain ⟨value, unexpired⟩ := lease_after_acquire A (leaseLimit_pos policy.algorithm) early
      (kept.unexpired _ early late) kept.unexpired
    apply kept.handedOut (decide (((run.store.cells (leaseKey builder policy)).lease.live
      (clock now).nanos).value < leaseLimit policy.algorithm))
    · rfl
    · simpa using granted
    · simpa using value
    · exact unexpired

end Step

theorem release_kept (policies : Handler PolicyOp PolicyRes π Time) (A : Arith)
    (engine : DefaultEngine) (kept : Kept key first last run) {clock : Nat → Time}
    (within : ∀ n, first ≤ (clock n).nanos ∧ (clock n).nanos ≤ last) {lease : Nat}
    {release : Program EngineOp EngineRes (Except String Unit)}
    (found : run.handed[lease]? = some { release := release }) :
    let next := run.step policies A engine (clock, .release lease)
    Kept key first last next ∧ next.surplus key = run.surplus key := by
  have counted := kept.counted
  obtain ⟨inRange, element⟩ := List.getElem?_eq_some_iff.mp found
  have callbacks : ∀ handed ∈ run.handed.set lease { release := release, called := true },
      handed.release = .done (.ok ()) ∨ handed.release = releaseOf key := by
    intro handed member
    rcases List.mem_or_eq_of_mem_set member with before | rfl
    · exact kept.callbacks handed before
    · exact kept.callbacks { release := release } (List.mem_of_getElem? found)
  have remaining := List.countP_set (p := Handed.outstanding)
    (a := { release := release, called := true }) inRange
  simp only [step, found]
  rcases kept.callbacks _ (List.mem_of_getElem? found) with noop | real
  · obtain rfl : release = .done (.ok ()) := noop
    have same : ((run.handed.set lease { release := .done (.ok ()), called := true }).countP
        Handed.outstanding) = run.handed.countP Handed.outstanding := by
      rw [remaining, element]
      simp [Handed.outstanding]
    refine ⟨⟨kept.unexpired, ?_, callbacks⟩, ?_⟩
    · rw [same]
      exact counted
    · rw [surplus, surplus, same]
      rfl
  · obtain rfl : release = releaseOf key := real
    have listed : 0 < run.handed.countP Handed.outstanding :=
      List.countP_pos_iff.mpr ⟨_, List.mem_of_getElem? found, rfl⟩
    have fewer : ((run.handed.set lease { release := releaseOf key, called := true }).countP
        Handed.outstanding) = run.handed.countP Handed.outstanding - 1 := by
      rw [remaining, element]
      simp [Handed.outstanding, releaseOf]
    have lowered := MemoryStore.releaseLease_lease A (clock 0).nanos key run.store
    rw [ValueItem.live_of_unexpired (kept.unexpired _ (within 0).1 (within 0).2),
      if_pos (by omega)] at lowered
    have value : ((run.store.handle A (clock 0).nanos (.releaseLease key)).2.cells key).lease.value =
        (run.store.cells key).lease.value - 1 := congrArg ValueItem.value lowered
    refine ⟨⟨fun now early late => ?_, ?_, callbacks⟩, ?_⟩
    · exact (congrArg (ValueItem.expired now) lowered).trans (kept.unexpired now early late)
    · rw [fewer]
      refine le_of_le_of_eq ?_ value.symm
      omega
    · rw [surplus, surplus, fewer]
      refine (congrArg (· - _) value).trans ?_
      omega

/-- After calls within the time of one lease, with every callback called once, the
lease counter is back at zero exactly if no check found it below the limit. -/
theorem counter_zero_iff {π : Type} (policies : Handler PolicyOp PolicyRes π Time) (A : Arith)
    (atomic : Bool) (builder : DefaultBuilder) (policy : Policy) (side : π) (store : MemoryStore)
    (first : Int) (calls : List ((Nat → Time) × ClientCall))
    (concurrency : policy.algorithm.type = .concurrency)
    (served : ∀ time op side, Offers policy op (policies time op side).1)
    (absent : (store.cells (leaseKey builder policy)).lease = {})
    (legal : AllSteps (step policies A (standardEngine A atomic builder)) Legal { side, store } calls)
    (within : AllSteps (step policies A (standardEngine A atomic builder)) (Within A policy first)
      { side, store } calls)
    (finished : ∀ handed ∈ (calls.foldl (step policies A (standardEngine A atomic builder))
      { side, store }).handed, handed.called = true) :
    ((calls.foldl (step policies A (standardEngine A atomic builder))
        { side, store }).store.cells (leaseKey builder policy)).lease.value = 0 ↔
      AllSteps (step policies A (standardEngine A atomic builder))
        (fun run call => takesSlot policies (standardEngine A atomic builder) policy run call = false)
        { side, store } calls := by
  have start : Kept (leaseKey builder policy) first (first + leaseDuration A policy.algorithm)
      { side, store } := by
    refine ⟨fun now _ _ => ?_, ?_, by simp⟩
    · rw [absent]
      rfl
    · rw [absent]
      exact le_rfl
  obtain ⟨_, total⟩ := foldl_measure
    (takesSlot policies (standardEngine A atomic builder) policy)
    (Kept (leaseKey builder policy) first (first + leaseDuration A policy.algorithm))
    (surplus (leaseKey builder policy)) (fun run call kept holds => by
      obtain ⟨clock, call⟩ := call
      cases call with
      | evaluate req => exact evaluate_kept concurrency served kept holds.2 atomic req
      | startConcurrencyLease req =>
          have stepped := startConcurrencyLease_kept concurrency served kept holds.2 atomic req
          exact ⟨stepped.1, stepped.2.trans (add_zero _).symm⟩
      | release lease =>
          obtain ⟨release, found⟩ := holds.1
          have stepped := release_kept policies A (standardEngine A atomic builder) kept holds.2 found
          exact ⟨stepped.1, stepped.2.trans (add_zero _).symm⟩)
    calls { side, store } start (legal.and within)
  have none : ((calls.foldl (step policies A (standardEngine A atomic builder))
      { side, store }).handed.countP Handed.outstanding) = 0 := by
    refine List.countP_eq_zero.mpr fun handed member => ?_
    simp only [Handed.outstanding, finished handed member]
    split <;> decide
  rw [surplus, surplus, none, absent] at total
  rw [← countSteps_eq_zero_iff]
  simp only [List.countP_nil, Nat.cast_zero, sub_zero, zero_add] at total
  rw [total, Nat.cast_eq_zero]

theorem listed_offers (action : ActionType) (time : Time) (op : PolicyOp) (side : Unit) :
    Offers (limited action) op (listed action time op side).1 := by
  cases op with
  | now => trivial
  | cacheSet ns policies => trivial
  | cacheGet ns =>
      rintro _ ⟨⟩ p member
      exact List.mem_singleton.mp member
  | loadPolicies ns =>
      rintro _ ⟨⟩ p member
      exact List.mem_singleton.mp member

private def leased : List ((Nat → Time) × ClientCall) :=
  [.startConcurrencyLease {}, .evaluate {}, .startConcurrencyLease {}, .release 0,
    .release 1].mapIdx fun n call => (fun _ => ⟨n, utc⟩, call)

/-- A check and a second lease find the slot taken. -/
theorem counter_zero_of_leased :
    ((leased.foldl (step (listed .deny) .machine (standardEngine .machine true plainBuilder))
        { side := (), store := .newSharded 1 }).store.cells
      (leaseKey plainBuilder (limited .deny))).lease.value = 0 := by
  have ended : (leased.foldl (step (listed .deny) .machine
      (standardEngine .machine true plainBuilder)) { side := (), store := .newSharded 1 }).handed =
        [{ release := releaseOf (leaseKey plainBuilder (limited .deny)), called := true },
          { release := .done (.ok ()), called := true }] := rfl
  have early : ∀ n : Fin 5, (0 : Int) ≤ n ∧
      (n : Int) ≤ 0 + leaseDuration .machine (limited .deny).algorithm := by decide
  refine (counter_zero_iff (listed .deny) .machine true plainBuilder (limited .deny) ()
    (.newSharded 1) 0 leased rfl (listed_offers .deny) rfl
    ⟨trivial, trivial, trivial, ⟨_, rfl⟩, ⟨_, rfl⟩, trivial⟩
    ⟨fun _ => early 0, fun _ => early 1, fun _ => early 2, fun _ => early 3, fun _ => early 4, trivial⟩
    ?_).mpr ⟨rfl, rfl, rfl, rfl, rfl, trivial⟩
  rw [ended]
  simp

/-- A check takes a slot and hands out nothing that would free it. -/
theorem counter_left_by_check :
    let after := step (listed .deny) .machine (standardEngine .machine true plainBuilder)
      { side := (), store := .newSharded 1 } (fun _ => ⟨0, utc⟩, .evaluate {})
    after.handed.length = 0 ∧
      (after.store.cells (leaseKey plainBuilder (limited .deny))).lease.value = 1 := by
  decide

end ClientRun

end Client

end Rlaas.Engine
