import Rlaas.Adapter.Lease
import Rlaas.Engine.SlotProperties

/-! Lease registries and the requests that use them: whether lease IDs are told
apart, and what a failed release leaves behind. -/

set_option autoImplicit false

namespace Rlaas.Adapter

open Go Model Store Key Engine Effect Function

section Registry

variable {φ : Type}

theorem LeaseItems.pop_fst (id : String) (items : LeaseItems φ) : (items.pop id).1 = items id := by
  unfold pop
  cases items id <;> rfl

theorem LeaseItems.pop_snd (id : String) (items : LeaseItems φ) :
    (items.pop id).2 = update items id none := by
  unfold pop
  cases found : items id with
  | some fn => rfl
  | none => exact (update_eq_self_iff.mpr found.symm).symm

/-- The methods of a registry. -/
inductive RegistryCall (φ : Type) where
  | put (fn : φ)
  | pop (id : String)

namespace GRPCLeaseRegistry

theorem newID_injective {first second : Int} (same : newID first = newID second) :
    first = second := by
  have texts := congrArg String.toList same
  rw [newID, newID, String.toList_append, String.toList_append] at texts
  exact Strings.toString_injective (String.toList_inj.mp (List.append_cancel_left texts))

/-- A call at a reading of the clock. -/
def step (items : LeaseItems φ) (call : Int × RegistryCall φ) : LeaseItems φ :=
  match call.2 with
  | .put fn => (put call.1 fn items).2
  | .pop id => (items.pop id).2

def after (calls : List (Int × RegistryCall φ)) : LeaseItems φ := calls.foldl step .empty

def Pops (unixNano : Int) (call : Int × RegistryCall φ) : Prop := call.2 = .pop (newID unixNano)

variable {unixNano : Int} {call : Int × RegistryCall φ} {calls : List (Int × RegistryCall φ)}

theorem step_other (unpopped : ¬Pops unixNano call)
    (unput : ∀ fn, call ≠ (unixNano, .put fn)) (items : LeaseItems φ) :
    step items call (newID unixNano) = items (newID unixNano) := by
  obtain ⟨reading, call⟩ := call
  cases call with
  | put fn =>
      refine update_of_ne (fun same => unput fn ?_) _ _
      rw [newID_injective same]
  | pop id =>
      have popped : step items (reading, .pop id) = update items id none :=
        LeaseItems.pop_snd id items
      rw [popped]
      exact update_of_ne (fun same => unpopped (by rw [Pops, same])) _ _

theorem after_of_untouched (unpopped : ∀ call ∈ calls, ¬Pops unixNano call)
    (unput : ∀ fn, (unixNano, .put fn) ∉ calls) (items : LeaseItems φ) :
    calls.foldl step items (newID unixNano) = items (newID unixNano) := by
  induction calls generalizing items with
  | nil => rfl
  | cons call rest ih =>
      rw [List.foldl_cons, ih (fun other member => unpopped other (by simp [member]))
        fun fn member => unput fn (by simp [member])]
      exact step_other (unpopped call (by simp)) (fun fn same => unput fn (by simp [same])) items

theorem step_put (fn : φ) (items : LeaseItems φ) :
    step items (unixNano, .put fn) (newID unixNano) = some fn :=
  update_self _ _ _

theorem registered_of_unpopped (unpopped : ∀ call ∈ calls, ¬Pops unixNano call)
    {items : LeaseItems φ} (registered : items (newID unixNano) ≠ none) :
    calls.foldl step items (newID unixNano) ≠ none := by
  induction calls generalizing items with
  | nil => exact registered
  | cons call rest ih =>
      refine ih (fun other member => unpopped other (by simp [member])) ?_
      by_cases put : ∃ fn, call = (unixNano, .put fn)
      · obtain ⟨fn, rfl⟩ := put
        rw [step_put]
        exact Option.some_ne_none fn
      · rw [step_other (unpopped call (by simp)) fun fn same => put ⟨fn, same⟩]
        exact registered

/-- A registered ID was put and not popped since. -/
theorem put_of_registered {fn : φ} (registered : after calls (newID unixNano) = some fn) :
    ∃ before between, calls = before ++ (unixNano, .put fn) :: between ∧
      ∀ call ∈ between, ¬Pops unixNano call := by
  induction calls using List.reverseRecOn with
  | nil => cases registered
  | append_singleton calls call ih =>
      rw [after, List.foldl_append] at registered
      by_cases put : ∃ fn, call = (unixNano, .put fn)
      · obtain ⟨fn', rfl⟩ := put
        have stored : step (after calls) (unixNano, .put fn') (newID unixNano) = some fn := registered
        rw [step_put] at stored
        cases stored
        exact ⟨calls, [], rfl, by simp⟩
      · by_cases popped : Pops unixNano call
        · obtain ⟨reading, call⟩ := call
          cases popped
          have gone : ((after calls).pop (newID unixNano)).2 (newID unixNano) = some fn := registered
          rw [LeaseItems.pop_snd, update_self] at gone
          cases gone
        · have kept : step (after calls) call (newID unixNano) = some fn := registered
          rw [step_other popped (fun fn same => put ⟨fn, same⟩)] at kept
          obtain ⟨before, between, rfl, unpopped⟩ := ih kept
          refine ⟨before, between ++ [call], by simp, ?_⟩
          intro other member
          rcases List.mem_append.mp member with earlier | last
          · exact unpopped other earlier
          · rw [List.mem_singleton.mp last]
            exact popped

/-- Every put returns an ID that is not registered, under which the next pop finds
its callback, exactly if between any two puts at one reading of the clock there
is a pop of the ID they share. -/
theorem put_unique_iff {φ : Type} (calls : List (Int × RegistryCall φ)) :
    (∀ before unixNano fn rest, calls = before ++ (unixNano, RegistryCall.put fn) :: rest →
        after before (put unixNano fn (after before)).1 = none ∧
          ∀ between reading later,
            rest = between ++
              (reading, RegistryCall.pop (put unixNano fn (after before)).1) :: later →
            (∀ call ∈ between, call.2 ≠ .pop (put unixNano fn (after before)).1) →
            ((after (before ++ (unixNano, RegistryCall.put fn) :: between)).pop
              (put unixNano fn (after before)).1).1 = some fn) ↔
      ∀ before unixNano fn between fn' rest,
        calls = before ++ (unixNano, RegistryCall.put fn) ::
          (between ++ (unixNano, RegistryCall.put fn') :: rest) →
        ∃ call ∈ between, call.2 = .pop (newID unixNano) := by
  constructor
  · intro unique before unixNano fn between fn' rest split
    by_contra never
    push Not at never
    obtain ⟨fresh, _⟩ := unique (before ++ (unixNano, .put fn) :: between) unixNano fn' rest
      (by simp [split])
    rw [after, List.foldl_append, List.foldl_cons] at fresh
    refine registered_of_unpopped never ?_ fresh
    rw [step_put]
    exact Option.some_ne_none fn
  · intro popped before unixNano fn rest split
    constructor
    · by_contra registered
      obtain ⟨other, found⟩ := Option.ne_none_iff_exists'.mp registered
      obtain ⟨earlier, between, rfl, unpopped⟩ := put_of_registered found
      obtain ⟨call, member, pops⟩ := popped earlier unixNano other between fn rest (by simp [split])
      exact unpopped call member pops
    · intro between reading later tail unpopped
      rw [LeaseItems.pop_fst, after, List.foldl_append, List.foldl_cons]
      refine (after_of_untouched unpopped ?_ _).trans (step_put fn _)
      intro fn' member
      obtain ⟨first, second, rfl⟩ := List.append_of_mem member
      obtain ⟨call, among, pops⟩ := popped before unixNano fn first fn'
        (second ++ (reading, .pop (newID unixNano)) :: later)
        (by simp [split, tail, put, LeaseItems.put])
      exact unpopped call (by simp [among]) pops

/-- Two puts at one reading: the second returns the ID of the first and replaces
its callback. -/
theorem put_overwrites :
    (put 7 "b" (after [(7, .put "a")])).1 = (put 7 "a" LeaseItems.empty).1 ∧
      ((after [(7, .put "a"), (7, .put "b")]).pop (put 7 "a" LeaseItems.empty).1).1 = some "b" ∧
      (after [(7, .put "a"), (7, .put "b"), (8, .pop (put 7 "a" LeaseItems.empty).1)])
        (put 7 "a" LeaseItems.empty).1 = none := by
  decide

end GRPCLeaseRegistry

end Registry

section Requests

variable {π σ ρ : Type}
variable {state : LeaseState π σ} {missing failed released : ρ}

/-- What the sequences of requests to either adapter have in common. -/
structure Service (κ ρ : Type) where
  handler : κ → Handling ρ
  newID : Reading → String
  releases : κ → Bool
  /-- The lease ID that a well-formed release request names. -/
  names : κ → Option String
  /-- The reply to a release says that it has failed. -/
  failure : ρ → Bool

def HTTP.service (A : Arith) (engine : DefaultEngine) : Service HTTP.Request HTTP.Reply where
  handler := HTTP.Request.handler A engine
  newID := HTTP.newID
  releases
    | .acquire _ => false
    | .release _ => true
  names
    | .acquire _ => none
    | .release body => body.filter fun leaseID => leaseID ≠ ""
  failure
    | .error .. => true
    | _ => false

def GRPC.service (A : Arith) (engine : DefaultEngine) : Service GRPC.Request GRPC.Reply where
  handler := GRPC.Request.handler A engine
  newID := GRPC.newID
  releases
    | .acquire _ => false
    | .release _ => true
  names
    | .acquire _ => none
    | .release leaseID => some leaseID
  failure
    | .released released => !released
    | .acquired .. => false

namespace Service

variable {κ : Type} (service : Service κ ρ)
  (policies : Handler PolicyOp PolicyRes π Time)
  (counters : Handler EnvOp EnvRes σ Time)

/-- A request served alone, with the readings its operations make. -/
def serve (state : LeaseState π σ) (call : (Nat → Reading) × κ) : ρ × LeaseState π σ :=
  (service.handler call.2).exec (perform policies counters service.newID) call.1 state

/-- A release that reports failure changes neither the registry nor the store. -/
def Unharmed (state : LeaseState π σ) (call : (Nat → Reading) × κ) : Prop :=
  service.releases call.2 = true →
    service.failure (service.serve policies counters state call).1 = true →
    (service.serve policies counters state call).2.items = state.items ∧
      (service.serve policies counters state call).2.store = state.store

/-- The request names a registered lease whose `ReleaseLease` is going to fail. -/
def Loses (state : LeaseState π σ) (call : (Nat → Reading) × κ) : Prop :=
  ∃ id key message, service.names call.2 = some id ∧ state.items id = some (releaseOf key) ∧
    (counters (call.1 1).time (.store (.releaseLease key)) state.store).1 = .error message

end Service

variable (policies : Handler PolicyOp PolicyRes π Time)
  (counters : Handler EnvOp EnvRes σ Time) (newID : Reading → String)

theorem engineCall_exec {α : Type} (program : Program EngineOp EngineRes α) (next : α → Handling ρ)
    (clock : Nat → Reading) (state : LeaseState π σ) :
    ∃ n, (engineCall program next).exec (perform policies counters newID) clock state =
      (next (program.exec (fun reading => engineEnv policies counters reading.time) clock
          (state.side, state.store)).1).exec (perform policies counters newID)
        (fun m => clock (m + n))
        { side := (program.exec (fun reading => engineEnv policies counters reading.time) clock
            (state.side, state.store)).2.1
          store := (program.exec (fun reading => engineEnv policies counters reading.time) clock
            (state.side, state.store)).2.2
          items := state.items } := by
  let lift : π × σ → LeaseState π σ := fun inner =>
    { side := inner.1, store := inner.2, items := state.items }
  have commutes : ∀ (reading : Reading) (op : EngineOp) (inner : π × σ),
      (perform policies counters newID reading (.engine op) (lift inner)).1 =
          (engineEnv policies counters reading.time op inner).1 ∧
        (perform policies counters newID reading (.engine op) (lift inner)).2 =
          lift (engineEnv policies counters reading.time op inner).2 := by
    rintro reading (op | op) ⟨side, store⟩
    · exact ⟨rfl, rfl⟩
    · exact ⟨rfl, rfl⟩
  exact ⟨_, Program.exec_mapOp_bind lift commutes program next clock (state.side, state.store)⟩

/-- The registered callbacks do nothing or release a lease. -/
def Genuine (items : LeaseItems Callback) : Prop :=
  ∀ id fn, items id = some fn → fn = .done (.ok ()) ∨ ∃ key, fn = releaseOf key

theorem Genuine.put {items : LeaseItems Callback} (genuine : Genuine items) {fn : Callback}
    (callback : fn = .done (.ok ()) ∨ ∃ key, fn = releaseOf key) (id : String) :
    Genuine (update items id (some fn)) := by
  intro other registered found
  rcases update_cases found with ⟨_, added⟩ | ⟨_, before⟩
  · cases added
    exact callback
  · exact genuine other registered before

theorem Genuine.pop {items : LeaseItems Callback} (genuine : Genuine items) (id : String) :
    Genuine (update items id none) := by
  intro other registered found
  rcases update_cases found with ⟨_, removed⟩ | ⟨_, before⟩
  · cases removed
  · exact genuine other registered before

theorem acquire_genuine {A : Arith} {engine : DefaultEngine} {req : RequestContext}
    {reply : LeaseStart → String → ρ} (clock : Nat → Reading) (genuine : Genuine state.items) :
    Genuine ((engineCall (engine.startConcurrencyLease A req) fun start =>
      register start (reply start)).exec (perform policies counters newID) clock state).2.items := by
  obtain ⟨n, executed⟩ := engineCall_exec policies counters newID
    (engine.startConcurrencyLease A req) (fun start => register start (reply start)) clock state
  have callback := startConcurrencyLease_release (Program.exec_runs
    (fun reading : Reading => engineEnv policies counters reading.time)
    (engine.startConcurrencyLease A req) clock (state.side, state.store))
  rw [executed, register]
  generalize (engine.startConcurrencyLease A req).exec
    (fun reading : Reading => engineEnv policies counters reading.time) clock
    (state.side, state.store) = outcome at callback ⊢
  split_ifs
  · exact genuine.put callback (newID (clock (0 + n)))
  · exact genuine

theorem popAndRelease_of_missing {id : String} (clock : Nat → Reading)
    (absent : state.items id = none) :
    (popAndRelease id missing failed released).exec (perform policies counters newID) clock state =
      (missing, state) := by
  rw [popAndRelease, Program.exec_call]
  simp only [perform, LeaseItems.pop, absent]
  rfl

theorem popAndRelease_of_noop {id : String} (clock : Nat → Reading)
    (found : state.items id = some (.done (.ok ()))) :
    (popAndRelease id missing failed released).exec (perform policies counters newID) clock state =
      (released, { state with items := update state.items id none }) := by
  rw [popAndRelease, Program.exec_call]
  simp only [perform, LeaseItems.pop, found]
  rfl

theorem popAndRelease_of_lease {id key : String} (clock : Nat → Reading)
    (found : state.items id = some (releaseOf key)) :
    (popAndRelease id missing failed released).exec (perform policies counters newID) clock state =
      (match (counters (clock 1).time (.store (.releaseLease key)) state.store).1 with
        | .error _ => failed
        | .ok _ => released,
        { state with
          store := (counters (clock 1).time (.store (.releaseLease key)) state.store).2
          items := update state.items id none }) := by
  rw [popAndRelease, Program.exec_call]
  simp only [perform, LeaseItems.pop, found, engineCall, releaseOf, Program.mapOp, Program.bind_call,
    Program.exec_call, Nat.zero_add]
  cases (counters (clock 1).time (.store (.releaseLease key)) state.store).1 with
  | error message => rfl
  | ok _ => rfl

/-- How a request is handled: it acquires, it releases the lease it names, or it is
answered at once. -/
inductive Service.Handles {κ : Type} (service : Service κ ρ) (request : κ) : Prop where
  | acquire {A : Arith} {engine : DefaultEngine} {req : RequestContext}
      {reply : LeaseStart → String → ρ} : service.releases request = false →
      service.names request = none →
      service.handler request = engineCall (engine.startConcurrencyLease A req)
        (fun start => register start (reply start)) → Handles service request
  | release {id : String} {missing failed released : ρ} : service.releases request = true →
      service.names request = some id →
      service.handler request = popAndRelease id missing failed released →
      service.failure failed = true → service.failure released = false → Handles service request
  | refuse {reply : ρ} : service.names request = none → service.handler request = .done reply →
      Handles service request

theorem HTTP.service_handles (A : Arith) (engine : DefaultEngine) (request : HTTP.Request) :
    (HTTP.service A engine).Handles request := by
  cases request with
  | acquire body =>
      cases body with
      | none => exact .refuse rfl rfl
      | some req => exact .acquire rfl rfl rfl
  | release body =>
      cases body with
      | none => exact .refuse rfl rfl
      | some leaseID =>
          by_cases unnamed : leaseID = ""
          · subst unnamed
            exact .refuse rfl rfl
          · have named : (HTTP.service A engine).names (.release (some leaseID)) = some leaseID := by
              simp [HTTP.service, unnamed]
            have handled : (HTTP.service A engine).handler (.release (some leaseID)) =
                popAndRelease leaseID (.error "lease not found" 404) (.error "release failed" 500)
                  .released := by
              simp [HTTP.service, HTTP.Request.handler, HTTP.release, unnamed]
            exact .release rfl named handled rfl rfl

theorem GRPC.service_handles (A : Arith) (engine : DefaultEngine) (request : GRPC.Request) :
    (GRPC.service A engine).Handles request := by
  cases request with
  | acquire request => exact .acquire rfl rfl rfl
  | release leaseID => exact .release rfl rfl rfl rfl rfl

section Served

variable {κ : Type} {service : Service κ ρ} (handles : ∀ request, service.Handles request)
  {state : LeaseState π σ} (genuine : Genuine state.items) (call : (Nat → Reading) × κ)

include handles genuine

theorem Service.serve_genuine : Genuine (service.serve policies counters state call).2.items := by
  obtain ⟨clock, request⟩ := call
  rw [Service.serve]
  cases handles request with
  | acquire _ _ handled =>
      rw [handled]
      exact acquire_genuine policies counters service.newID clock genuine
  | refuse _ handled =>
      rw [handled]
      exact genuine
  | @release id _ _ _ _ _ handled _ _ =>
      rw [handled]
      cases found : state.items id with
      | none =>
          rw [popAndRelease_of_missing policies counters service.newID clock found]
          exact genuine
      | some fn =>
          rcases genuine id fn found with rfl | ⟨key, rfl⟩
          · rw [popAndRelease_of_noop policies counters service.newID clock found]
            exact genuine.pop id
          · rw [popAndRelease_of_lease policies counters service.newID clock found]
            exact genuine.pop id

theorem Service.unharmed_iff :
    service.Unharmed policies counters state call ↔ ¬service.Loses counters state call := by
  obtain ⟨clock, request⟩ := call
  rw [Service.Unharmed, Service.Loses, Service.serve]
  cases handles request with
  | acquire other unnamed handled => simp [other, unnamed]
  | refuse unnamed handled => simp [unnamed, handled]
  | @release id _ _ _ releases named handled failing succeeding =>
      simp only [releases, named, handled, true_imp_iff]
      cases found : state.items id with
      | none =>
          rw [popAndRelease_of_missing policies counters service.newID clock found]
          refine iff_of_true (fun _ => ⟨rfl, rfl⟩) ?_
          rintro ⟨_, key, message, ⟨⟩, lease, _⟩
          rw [found] at lease
          cases lease
      | some fn =>
          rcases genuine id fn found with rfl | ⟨key, rfl⟩
          · rw [popAndRelease_of_noop policies counters service.newID clock found]
            refine iff_of_true (fun failed => ?_) ?_
            · rw [succeeding] at failed
              cases failed
            · rintro ⟨_, key, message, ⟨⟩, lease, _⟩
              rw [found] at lease
              cases lease
          · rw [popAndRelease_of_lease policies counters service.newID clock found]
            cases answer : (counters (clock 1).time (.store (.releaseLease key)) state.store).1 with
            | error message =>
                refine iff_of_false (fun unharmed => ?_) (not_not_intro
                  ⟨id, key, message, rfl, found, answer⟩)
                -- The callback is gone, whatever the store says.
                have kept : update state.items id none = state.items := (unharmed failing).1
                rw [← kept, update_self] at found
                cases found
            | ok _ =>
                refine iff_of_true (fun failed => ?_) ?_
                · rw [succeeding] at failed
                  cases failed
                · rintro ⟨_, key, message, ⟨⟩, lease, refused⟩
                  rw [found] at lease
                  cases lease
                  rw [answer] at refused
                  cases refused

end Served

/-- Along any requests to either adapter, a release that reports failure leaves
the registry and the store as they were exactly if `ReleaseLease` never fails
for a registered lease. -/
theorem failed_release_keeps_iff {π σ : Type} (A : Arith) (engine : DefaultEngine)
    (policies : Handler PolicyOp PolicyRes π Time) (counters : Handler EnvOp EnvRes σ Time)
    (side : π) (store : σ) :
    (∀ calls, AllSteps (fun state call => ((HTTP.service A engine).serve policies counters state call).2)
          ((HTTP.service A engine).Unharmed policies counters) { side, store } calls ↔
        AllSteps (fun state call => ((HTTP.service A engine).serve policies counters state call).2)
          (fun state call => ¬(HTTP.service A engine).Loses counters state call)
          { side, store } calls) ∧
      ∀ calls, AllSteps (fun state call => ((GRPC.service A engine).serve policies counters state call).2)
          ((GRPC.service A engine).Unharmed policies counters) { side, store } calls ↔
        AllSteps (fun state call => ((GRPC.service A engine).serve policies counters state call).2)
          (fun state call => ¬(GRPC.service A engine).Loses counters state call)
          { side, store } calls := by
  have start : Genuine (LeaseState.items { side, store : LeaseState π σ }) := by
    intro id fn found
    cases found
  constructor
  · intro calls
    exact AllSteps.iff_of_invariant (fun state => Genuine state.items)
      (fun state call genuine => Service.serve_genuine policies counters
        (HTTP.service_handles A engine) genuine call)
      (fun state call genuine => Service.unharmed_iff policies counters
        (HTTP.service_handles A engine) genuine call) start
  · intro calls
    exact AllSteps.iff_of_invariant (fun state => Genuine state.items)
      (fun state call genuine => Service.serve_genuine policies counters
        (GRPC.service_handles A engine) genuine call)
      (fun state call genuine => Service.unharmed_iff policies counters
        (GRPC.service_handles A engine) genuine call) start

/-- The memory store, except that `ReleaseLease` fails at the reading one. -/
private def interrupted (time : Time) : (op : EnvOp) → MemoryStore → EnvRes op × MemoryStore
  | .store (.releaseLease key), store =>
      if time.nanos = 1 then (.error "timeout", store)
      else MemoryStore.env .machine time (.store (.releaseLease key)) store
  | op, store => MemoryStore.env .machine time op store

private def reading (nanos : Int) : Nat → Reading := fun _ =>
  { time := ⟨nanos, utc⟩, random := Vector.replicate 16 0 }

private def leaseID : String := LeaseRegistry.newID (Vector.replicate 16 0)

/-- A release fails with a store error, the second try finds no lease, and the
slot stays taken. -/
theorem failed_release_loses :
    let serve := (HTTP.service .machine (standardEngine .machine true plainBuilder)).serve
      (listed .deny) interrupted
    let acquired := serve { side := (), store := .newSharded 1 } (reading 0, .acquire (some {}))
    let failed := serve acquired.2 (reading 1, .release (some leaseID))
    let retried := serve failed.2 (reading 2, .release (some leaseID))
    (acquired.2.items leaseID).isSome = true ∧ failed.1 = .error "release failed" 500 ∧
      (failed.2.items leaseID).isSome = false ∧ retried.1 = .error "lease not found" 404 ∧
      (retried.2.store.cells (leaseKey plainBuilder (limited .deny))).lease.value = 1 := by
  refine ⟨?_, rfl, ?_, rfl, ?_⟩ <;> decide

end Requests

end Rlaas.Adapter
