import Rlaas.Algorithm.Footprint
import Rlaas.Engine.SlotProperties
import Rlaas.Lib.Pool
import Rlaas.Store.MemorySlots
import Rlaas.Store.SqlProperties

/-! The counter store behind an engine can be exchanged: whatever its clients do and however
their calls are interleaved, they get the same decisions from each of the stores. -/

set_option autoImplicit false

namespace Rlaas.Algorithm

open Go Model Store Effect

/-- The TTL an algorithm passes to the store under a policy is positive and whole. -/
def Kind.Durable (A : Arith) (cfg : AlgorithmConfig) : Kind → Prop
  | .fixedWindow => Storable (windowDuration cfg)
  | .tokenBucket => True
  | .slidingCounter => Storable (A.wrap (2 * SlidingCounter.window cfg))
  | .concurrency => Storable (Concurrency.leaseTTL A cfg)
  | .quota => Storable (windowDuration (Quota.period cfg))
  | .leakyBucket => Storable (LeakyBucket.ttl A cfg)
  | .slidingLog => Whole (windowDuration cfg) ∧ Whole (A.wrap (-windowDuration cfg))

/-- The evaluator reads the clock in the resolution of the store. -/
def ReadsWhole : (op : EnvOp) → EnvRes op → Prop
  | .now, time => Whole time.nanos
  | _, _ => True

section Asks

variable {A : Arith}

/-- Programs that ask for no more than a store is held to. -/
abbrev asking : Monitor EnvOp EnvRes Unit Answer :=
  .permits EnvOp.Used ReadsWhole fun _ => True

private theorem asking_refuse (policy : Policy) (retryAfter : Duration) (remaining : Int)
    (reason : String) :
    asking.Accepts () (refuse policy retryAfter remaining reason) :=
  ⟨trivial, fun _ _ => trivial⟩

theorem counterLoop_asks {rule : CounterRule} (long : Storable rule.ttl) (attempts : Nat) :
    asking.Accepts () (counterLoop A rule attempts) :=
  counterLoop_accepts trivial (fun _ => rfl) (fun _ => trivial) (asking_refuse ..)
    (asking_refuse ..) fun _ _ _ => ⟨long, fun _ => rfl, rfl, trivial⟩

theorem bucketLoop_asks {rule : BucketRule} (long : Storable rule.ttl) (attempts : Nat) :
    asking.Accepts () (bucketLoop rule attempts) :=
  bucketLoop_accepts (fun _ => True) (fun _ _ _ _ => ⟨trivial, fun _ => trivial⟩)
    (fun _ _ _ => trivial) (fun _ _ _ _ _ _ => asking_refuse ..)
    (fun _ _ _ _ _ _ _ =>
      ⟨long, fun _ => rfl, rfl, setTimestamp_accepts long (fun _ => rfl) trivial⟩) trivial

theorem maxLeases_pos (cfg : AlgorithmConfig) : 0 < Concurrency.maxLeases cfg := by
  unfold Concurrency.maxLeases
  split_ifs <;> omega

theorem evaluate_asks {policy : Policy} {req : RequestContext} {key : String} {kind : Kind}
    (durable : kind.Durable A policy.algorithm) :
    asking.Accepts () (kind.evaluate A true policy req key) := by
  cases kind with
  | fixedWindow =>
      refine ⟨trivial, fun now _ => counterLoop_asks ?_ _⟩
      exact durable
  | quota =>
      refine ⟨trivial, fun now _ => counterLoop_asks ?_ _⟩
      exact durable
  | slidingCounter =>
      refine ⟨trivial, fun now _ => ?_⟩
      refine accepts_attempt trivial (fun _ => trivial) fun prevCount _ => counterLoop_asks ?_ _
      exact durable
  | tokenBucket =>
      exact ⟨trivial, fun now _ => bucketLoop_asks (by decide : Storable (2 * hour)) _⟩
  | leakyBucket =>
      refine ⟨trivial, fun now _ => bucketLoop_asks ?_ _⟩
      exact durable
  | slidingLog =>
      refine ⟨trivial, fun now whole => ?_⟩
      refine accepts_attempt ⟨dvd_add whole durable.2, whole, durable.1⟩ (fun _ => trivial)
        fun counted _ => ?_
      obtain ⟨count, allowed⟩ := counted
      cases allowed with
      | false => exact asking_refuse ..
      | true => trivial
  | concurrency =>
      refine accepts_attempt ⟨maxLeases_pos _, durable⟩ (fun _ => trivial) fun acquired _ => ?_
      obtain ⟨granted, current⟩ := acquired
      cases granted with
      | false => exact asking_refuse ..
      | true => trivial

end Asks

end Rlaas.Algorithm

namespace Rlaas.Engine

open Go Model Store Algorithm Key Effect

def Returns (durable : Policy → Prop) : (op : PolicyOp) → PolicyRes op → Prop
  | .cacheGet _, hit => ∀ policies, hit = some policies → ∀ policy ∈ policies, durable policy
  | .loadPolicies _, loaded => ∀ policies, loaded = .ok policies → ∀ policy ∈ policies, durable policy
  | _, _ => True

def Keeps (durable : Policy → Prop) : PolicyOp → Prop
  | .cacheSet _ policies => ∀ policy ∈ policies, durable policy
  | _ => True

/-- A policy store and its cache, of any kind, that know policies of one sort only. -/
structure PolicySide (durable : Policy → Prop) (π : Type) where
  handle : Handler PolicyOp PolicyRes π Time
  sound : π → Prop
  returns : ∀ time op side, sound side → Keeps durable op →
    Returns durable op (handle time op side).1 ∧ sound (handle time op side).2

/-- A policy whose counters are written with positive TTLs, of whole microseconds. -/
def Durable (A : Arith) (policy : Policy) : Prop :=
  ∀ kind, kindOf policy.algorithm.type = some kind → kind.Durable A policy.algorithm

/-- A client of an engine: one that asks for a decision, or one that takes a lease and
releases it later. -/
inductive Caller where
  | evaluate (req : RequestContext)
  | lease (req : RequestContext)

/-- What the caller is told, and the error of the release. -/
def Caller.program (A : Arith) (engine : DefaultEngine) :
    Caller → Program EngineOp EngineRes (Decision × Except String Unit)
  | .evaluate req => (engine.evaluate req).bind fun decision => .done (decision, .ok ())
  | .lease req => (engine.startConcurrencyLease A req).bind fun start =>
      start.release.bind fun released => .done (start.decision, released)

section Asks

variable {A : Arith} {α : Type}

def EngineAsks (durable : Policy → Prop) : EngineOp → Prop
  | .policy op => Keeps durable op
  | .env op => op.Used

def EngineReturns (durable : Policy → Prop) : (op : EngineOp) → EngineRes op → Prop
  | .policy op, answer => Returns durable op answer
  | .env op, answer => ReadsWhole op answer

abbrev engineAsking (A : Arith) (results : α → Prop) : Monitor EngineOp EngineRes Unit α :=
  .permits (EngineAsks (Durable A)) (EngineReturns (Durable A)) results

/-- A resolution that has no winner, or one of a kind. -/
def Picks (durable : Policy → Prop) (picked : Except String (Option (Policy × String))) : Prop :=
  ∀ policy keyStr, picked = .ok (some (policy, keyStr)) → durable policy

variable (builder : DefaultBuilder)

theorem selectPolicy_picks {durable : Policy → Prop} (now : Time) (req : RequestContext)
    {listed : List Policy} (known : ∀ policy ∈ listed, durable policy) :
    Picks durable (selectPolicy builder now req listed) := by
  intro winner keyStr selected
  rw [selectPolicy_eq] at selected
  obtain ⟨chosen, won, pair⟩ := Option.map_eq_some_iff.mp (Except.ok.inj selected)
  obtain ⟨rfl, rfl⟩ := Prod.mk.inj pair
  obtain ⟨candidate, _⟩ := List.mem_filter.mp (List.argmax_mem won)
  exact known chosen (List.mem_filter.mp candidate).1

theorem pickPolicy_picks (durable : Policy → Prop) (req : RequestContext) :
    (Monitor.permits (Keeps durable) (Returns durable) (Picks durable)).Accepts ()
      (pickPolicy builder req) := by
  refine ⟨trivial, fun now _ => ⟨trivial, fun hit returned => ?_⟩⟩
  cases hit with
  | some listed => exact selectPolicy_picks builder now req (returned listed rfl)
  | none =>
      refine ⟨trivial, fun loaded returned => ?_⟩
      cases loaded with
      | error message =>
          intro policy keyStr failed
          cases failed
      | ok listed =>
          exact ⟨returned listed rfl,
            fun _ _ => selectPolicy_picks builder now req (returned listed rfl)⟩

theorem resolved_asks (req : RequestContext) {results : α → Prop}
    {after : Except String (Option (Policy × String)) → Program EngineOp EngineRes α}
    (continues : ∀ picked, Picks (Durable A) picked →
      (engineAsking A results).Accepts () (after picked)) :
    (engineAsking A results).Accepts ()
      (((pickPolicy builder req).mapOp EngineOp.policy fun _ answer => answer).bind after) := by
  refine Monitor.accepts_mapOp_bind _ _ ?_ ?_ ?_ ?_ (pickPolicy_picks builder (Durable A) req)
  · exact fun _ _ kept => kept
  · exact fun _ _ _ returned => returned
  · exact fun _ _ _ => rfl
  · exact fun _ picked picks => continues picked picks

theorem evaluate_engine_asks (req : RequestContext) :
    (engineAsking A fun _ => True).Accepts ()
      ((standardEngine A true builder).evaluate req) := by
  refine resolved_asks builder req fun picked picks => ?_
  rcases picked with message | _ | ⟨policy, keyStr⟩
  · trivial
  · trivial
  · have durable := picks policy keyStr rfl
    rw [evaluatePicked]
    cases found : kindOf policy.algorithm.type with
    | none =>
        simp only [standardEngine, found, Option.map_none]
        trivial
    | some kind =>
        simp only [standardEngine, found, Option.map_some]
        refine Monitor.accepts_mapOp_bind _ _ ?_ ?_ ?_ ?_ (evaluate_asks (durable kind found))
        · exact fun _ _ asked => asked
        · exact fun _ _ _ read => read
        · exact fun _ _ _ => rfl
        · exact fun _ _ _ => trivial

theorem startConcurrencyLease_asks (req : RequestContext) :
    (engineAsking A fun start : LeaseStart =>
        (engineAsking A fun _ => True).Accepts () start.release).Accepts ()
      ((standardEngine A true builder).startConcurrencyLease A req) := by
  refine resolved_asks builder req fun picked picks => ?_
  rcases picked with message | _ | ⟨policy, keyStr⟩
  · trivial
  · trivial
  · have durable := picks policy keyStr rfl
    rw [leaseStartPicked]
    split_ifs with other
    · exact Monitor.permits_bind (evaluate_engine_asks builder req) fun _ _ => trivial
    · have concurrency : policy.algorithm.type = .concurrency := not_not.mp other
      have long : Storable (leaseDuration A policy.algorithm) :=
        durable .concurrency (by rw [concurrency]; rfl)
      refine ⟨⟨leaseLimit_pos _, long⟩, fun answer _ => ?_⟩
      rcases answer with message | ⟨granted, current⟩
      · trivial
      · cases granted with
        | false => trivial
        | true => exact ⟨trivial, fun _ _ => trivial⟩

theorem program_asks (caller : Caller) :
    (engineAsking A fun _ => True).Accepts ()
      (caller.program A (standardEngine A true builder)) := by
  cases caller with
  | evaluate req => exact Monitor.permits_bind (evaluate_engine_asks builder req) fun _ _ => trivial
  | lease req =>
      refine Monitor.permits_bind (startConcurrencyLease_asks builder req) fun start releases => ?_
      exact Monitor.permits_bind releases fun _ _ => trivial

end Asks

section Exchange

variable {A : Arith} {σ σ' π : Type}

/-- One operation of an engine over two stores that stand for the same slots. -/
theorem engineEnv_alike {first : Backend A σ} {second : Backend A σ'}
    (side : PolicySide (Durable A) π) {known : π} (sound : side.sound known) {before : Int}
    {left : σ} {right : σ'} {time : Time}
    (alike : Backend.Alike first second before left right) (after : before ≤ time.nanos)
    (modern : Modern time.nanos) {op : EngineOp} (held : EngineAsks (Durable A) op) :
    let answered := engineEnv side.handle (counterEnv first.handle) time op (known, left)
    let answeredToo := engineEnv side.handle (counterEnv second.handle) time op (known, right)
    answered.1 = answeredToo.1 ∧ EngineReturns (Durable A) op answered.1 ∧
      answered.2.1 = answeredToo.2.1 ∧ side.sound answered.2.1 ∧
        Backend.Alike first second time.nanos answered.2.2 answeredToo.2.2 := by
  cases op with
  | policy op =>
      obtain ⟨returned, still⟩ := side.returns time op known sound held
      exact ⟨rfl, returned, rfl, still, alike.later after⟩
  | env op =>
      obtain ⟨same, still⟩ := alike.handle after modern held
      refine ⟨same, ?_, rfl, sound, still⟩
      cases op with
      | now => exact modern.2
      | _ => trivial

/-- Stores that stand for the same slots cannot be told apart through an engine. -/
theorem run_exchanged (first : Backend A σ) (second : Backend A σ')
    (side : PolicySide (Durable A) π) (known : π) (sound : side.sound known)
    (builder : DefaultBuilder) (callers : List Caller) (schedule : List (Nat × Time))
    (ordered : schedule.Pairwise fun earlier later => earlier.2.nanos ≤ later.2.nanos)
    (modern : ∀ turn ∈ schedule, Modern turn.2.nanos) {left : σ} {right : σ'}
    (alike : Backend.Alike first second zeroNanos left right) :
    let threads := callers.map (Caller.program A (standardEngine A true builder))
    ((Pool.start threads (known, left)).run
        (engineEnv side.handle (counterEnv first.handle)) schedule).results =
      ((Pool.start threads (known, right)).run
        (engineEnv side.handle (counterEnv second.handle)) schedule).results := by
  intro threads
  have permitted : ∀ (thread : Nat) program, (Pool.start threads (known, left) :
      Pool _ _ _ _ Time).threads[thread]? = some program →
      (engineAsking A fun _ => True).Accepts () program := by
    intro thread program found
    obtain ⟨caller, _, rfl⟩ := List.mem_map.mp (List.mem_of_getElem? found)
    exact program_asks builder caller
  refine congrArg (List.map Program.result?) (Pool.run_related (fun time : Time => time.nanos)
    (fun time => Modern time.nanos)
    (fun now (left : π × σ) (right : π × σ') => left.1 = right.1 ∧ side.sound left.1 ∧
      Backend.Alike first second now left.2 right.2)
    ?_ schedule ordered modern rfl permitted (fun turn member => (modern turn member).1)
    ⟨rfl, sound, alike⟩)
  rintro before time op ⟨known, left⟩ ⟨_, right⟩ ⟨rfl, sound, alike⟩ after modern held
  exact engineEnv_alike side sound alike after modern held

/-- With positive TTLs and times of whole microseconds, an engine decides the same over the tables
of packages `postgres` and `oracle` as over the shards of the in-process store: all seven
algorithms, leases and their release, under any interleaving of the calls. -/
theorem decisions_same_on_sql (column : Int → Int)
    (keeps : ∀ time, Whole time → column time = time)
    (increment : Int → String → Int → Duration → Sql.Tables → Except String Int × Sql.Tables)
    (A : Arith) (side : PolicySide (Durable A) π) (known : π) (sound : side.sound known)
    (builder : DefaultBuilder) (callers : List Caller) (schedule : List (Nat × Time))
    (ordered : schedule.Pairwise fun earlier later => earlier.2.nanos ≤ later.2.nanos)
    (modern : ∀ turn ∈ schedule, Modern turn.2.nanos) (shardCount : Int) :
    let threads := callers.map (Caller.program A (standardEngine A true builder))
    ((Pool.start threads (known, ({} : Sql.Tables))).run
        (engineEnv side.handle (counterEnv (Sql.handle column increment A))) schedule).results =
      ((Pool.start threads (known, MemoryStore.newSharded shardCount)).run
        (engineEnv side.handle (MemoryStore.env A)) schedule).results := by
  rw [← MemoryStore.counterEnv_handle]
  exact run_exchanged (Sql.backend keeps increment A) (MemoryStore.backend A) side known sound builder
    callers schedule ordered modern ⟨fun _ => {}, fun _ => .empty _,
      MemoryStore.standsFor_newSharded A shardCount zeroNanos⟩

/-- A side that always returns one concurrency policy. -/
def fixedSide : PolicySide (Durable .machine) Unit where
  handle := listed .deny
  sound _ := True
  returns time op _ _ _ := by
    have all : ∀ policy ∈ [limited .deny], Durable .machine policy := by
      intro policy member kind found
      cases List.mem_singleton.mp member
      cases found
      exact (by decide : Storable (2 * minute))
    cases op with
    | now => exact ⟨trivial, trivial⟩
    | cacheSet _ _ => exact ⟨trivial, trivial⟩
    | cacheGet _ =>
        refine ⟨fun policies hit => ?_, trivial⟩
        rw [← Option.some.inj hit]
        exact all
    | loadPolicies _ =>
        refine ⟨fun policies loaded => ?_, trivial⟩
        rw [← Except.ok.inj loaded]
        exact all

/-- Two callers want the one slot there is; the first has it until it releases it. -/
private def contended : List (Nat × Time) :=
  [0, 0, 0, 1, 1, 1, 1, 0].map fun thread => (thread, ⟨1000000, utc⟩)

theorem decisions_same_on_sql_contended :
    let column := fun time : Int => (time + 500) / 1000 * 1000
    let increment := fun _ _ value _ (tables : Sql.Tables) => (.ok value, tables)
    let threads := [.lease {}, .evaluate {}].map
      (Caller.program .machine (standardEngine .machine true plainBuilder))
    ((Pool.start threads ((), ({} : Sql.Tables))).run (engineEnv fixedSide.handle
        (counterEnv (Sql.handle column increment .machine))) contended).results.map
            (Option.map fun told => told.1.allowed) = [some true, some false] := by
  intro column increment threads
  have keeps : ∀ time, Whole time → column time = time := by
    rintro time ⟨count, rfl⟩
    have halves : (1000 * count + 500) / 1000 = count := by omega
    rw [show column (1000 * count) = (1000 * count + 500) / 1000 * 1000 from rfl, halves, mul_comm]
  rw [decisions_same_on_sql column keeps increment .machine fixedSide () trivial plainBuilder
    [.lease {}, .evaluate {}] contended (by decide) (by decide) 1]
  decide +kernel

end Exchange

end Rlaas.Engine
