import Rlaas.Engine.Acquire
import Rlaas.Engine.EvaluatorProperties
import Rlaas.Store.MemoryCells

/-! The two entry points of the engine: when a shadow policy blocks a request,
and when `Evaluate` and `StartConcurrencyLease` decide alike. -/

set_option autoImplicit false

namespace Rlaas.Engine

open Go Model Store Algorithm Key Effect

section Shadow

variable {A : Arith} {engine : DefaultEngine} {req : RequestContext} {policy : Policy}
  {keyStr : String}

theorem runs_resolved_iff {α : Type} {builder : DefaultBuilder}
    {picked : Except String (Option (Policy × String))}
    {after : Except String (Option (Policy × String)) → Program EngineOp EngineRes α}
    {first : List (Event PolicyOp PolicyRes)} {rest : List (Event EngineOp EngineRes)} {result : α}
    (resolved : (pickPolicy builder req).Runs first picked) :
    (((pickPolicy builder req).mapOp EngineOp.policy fun _ answer => answer).bind after).Runs
        (resolution first ++ rest) result ↔
      (after picked).Runs rest result := by
  constructor
  · intro run
    exact Program.Runs.mapOp_after EngineOp.policy (fun _ answer => answer)
      (fun _ answer => answer) (fun _ _ => rfl) resolved run
  · intro run
    exact (resolved.mapOp EngineOp.policy (fun _ answer => answer) (fun _ answer => answer)
      (fun _ _ => rfl)).bind run

theorem runs_env {α : Type} {program : Evaluation α} {events : List (Event EnvOp EnvRes)}
    {result : α} (run : program.Runs events result) :
    (program.mapOp EngineOp.env fun _ answer => answer : Program EngineOp EngineRes α).Runs
      (events.map fun event => ⟨.env event.op, event.result⟩) result :=
  run.mapOp EngineOp.env (fun _ answer => answer) (fun _ answer => answer) (fun _ _ => rfl)

theorem handleFailure_allowed_iff (reason : String) :
    (handleFailure policy keyStr reason).allowed = true ↔ policy.failureMode ≠ .failClosed := by
  by_cases closed : policy.failureMode = .failClosed
  · simp [handleFailure, closed]
  · simp [handleFailure, closed]

theorem conclude_allowed_of_shadow (shadow : policy.enforcementMode = .shadow)
    (decision : Decision) : (conclude policy keyStr (.ok decision)).allowed = true := by
  simp [conclude, shadow]

/-- The policy has an algorithm, and that never returns an error. -/
def NeverFails (engine : DefaultEngine) (policy : Policy) (req : RequestContext)
    (keyStr : String) : Prop :=
  ∃ evaluate, engine.algorithms policy.algorithm.type = some evaluate ∧
    ∀ events message, ¬(evaluate policy req keyStr).Runs events (.error message)

/-- A policy that may fail closed has a run of the evaluation that is blocked. -/
theorem evaluatePicked_allows_iff (shadow : policy.enforcementMode = .shadow) :
    (∀ rest decision, (evaluatePicked engine req (.ok (some (policy, keyStr)))).Runs rest decision →
        decision.allowed = true) ↔
      policy.failureMode ≠ .failClosed ∨ NeverFails engine policy req keyStr := by
  cases configured : engine.algorithms policy.algorithm.type with
  | none =>
      simp only [evaluatePicked, NeverFails, configured, reduceCtorEq, false_and, exists_false,
        or_false]
      constructor
      · intro allows
        exact (handleFailure_allowed_iff _).mp (allows _ _ .done)
      · intro opened rest decision run
        cases run with
        | done => exact (handleFailure_allowed_iff _).mpr opened
  | some evaluate =>
      simp only [evaluatePicked, NeverFails, configured, Option.some.injEq, exists_eq_left']
      constructor
      · intro allows
        by_contra blocked
        push Not at blocked
        obtain ⟨closed, events, message, failed⟩ := blocked
        have run := allows _ _ ((runs_env failed).bind .done)
        exact (handleFailure_allowed_iff message).mp run closed
      · intro harmless rest decision run
        obtain ⟨_, answer, _, _, embedded, last⟩ := run.of_bind
        obtain ⟨events, own⟩ := embedded.of_mapOp
        cases last with
        | done =>
            cases answer with
            | ok answered => exact conclude_allowed_of_shadow shadow answered
            | error message =>
                rcases harmless with opened | never
                · exact (handleFailure_allowed_iff message).mpr opened
                · exact absurd own (never events message)

/-- The resolutions of a run of the acquire path: a policy of another type than
concurrency is handed to `Evaluate`, which resolves once more. -/
def resolutions (policy : Policy) (first second : List (Event PolicyOp PolicyRes)) :
    List (Event EngineOp EngineRes) :=
  if policy.algorithm.type = .concurrency then resolution first
  else resolution first ++ resolution second

variable {first second : List (Event PolicyOp PolicyRes)}

theorem acquire_allows_iff (picked : (pickPolicy engine.keyBuilder req).Runs first
      (.ok (some (policy, keyStr))))
    (shadow : policy.enforcementMode = .shadow)
    (concurrency : policy.algorithm.type = .concurrency) :
    (∀ rest start, (engine.startConcurrencyLease A req).Runs (resolution first ++ rest) start →
        start.decision.allowed = true) ↔ policy.failureMode ≠ .failClosed := by
  unfold DefaultEngine.startConcurrencyLease
  simp only [runs_resolved_iff picked, leaseStartPicked, concurrency]
  constructor
  · intro allows
    let acquire := EngineOp.env (.store (.acquireLease (keyStr ++ ":concurrency")
      (leaseLimit policy.algorithm) (leaseDuration A policy.algorithm)))
    have failed := allows [⟨acquire, .error "unreachable"⟩] _ (.call .done)
    exact (handleFailure_allowed_iff "unreachable").mp failed
  · intro opened rest start run
    cases run with
    | @call _ _ answer _ _ tail =>
        cases tail with
        | done =>
            rcases answer with message | ⟨granted, current⟩
            · exact (handleFailure_allowed_iff message).mpr opened
            · cases granted with
              | false => simp [concludeLease, withoutLease, refusedLease, shadow]
              | true => simp [concludeLease, grantedLease, shadow]

theorem delegate_allows_iff (picked : (pickPolicy engine.keyBuilder req).Runs first
      (.ok (some (policy, keyStr))))
    (other : policy.algorithm.type ≠ .concurrency) :
    (∀ rest start, (engine.startConcurrencyLease A req).Runs
        (resolution first ++ resolution second ++ rest) start → start.decision.allowed = true) ↔
      ∀ rest decision, (engine.evaluate req).Runs (resolution second ++ rest) decision →
        decision.allowed = true := by
  unfold DefaultEngine.startConcurrencyLease
  simp only [List.append_assoc, runs_resolved_iff picked, leaseStartPicked, if_pos other]
  constructor
  · intro allows rest decision run
    have delegated : ((engine.evaluate req).bind fun decision => .done (withoutLease decision)).Runs
        (resolution second ++ rest ++ []) (withoutLease decision) := run.bind .done
    rw [List.append_nil] at delegated
    exact allows rest _ delegated
  · intro allows rest start run
    obtain ⟨events, decision, last, split, own, ended⟩ := run.of_bind
    cases ended with
    | done =>
        rw [List.append_nil] at split
        exact allows rest decision (split ▸ own)

/-- Whatever the counter store and the algorithm answer, a winning shadow policy
lets the request through on both paths, exactly if it does not fail closed or
is of another type than concurrency with an algorithm that never fails. -/
theorem shadow_allows_iff (A : Arith) (engine : DefaultEngine) (req : RequestContext)
    (policy : Policy) (keyStr : String) (first second : List (Event PolicyOp PolicyRes))
    (picked : (pickPolicy engine.keyBuilder req).Runs first (.ok (some (policy, keyStr))))
    (pickedAgain : (pickPolicy engine.keyBuilder req).Runs second (.ok (some (policy, keyStr))))
    (shadow : policy.enforcementMode = .shadow) :
    ((∀ rest decision, (engine.evaluate req).Runs (resolution first ++ rest) decision →
        decision.allowed = true) ∧
      ∀ rest start, (engine.startConcurrencyLease A req).Runs
          (resolutions policy first second ++ rest) start → start.decision.allowed = true) ↔
      policy.failureMode ≠ .failClosed ∨
        (policy.algorithm.type ≠ .concurrency ∧ NeverFails engine policy req keyStr) := by
  have evaluates : ∀ {events : List (Event PolicyOp PolicyRes)},
      (pickPolicy engine.keyBuilder req).Runs events (.ok (some (policy, keyStr))) →
      ((∀ rest decision, (engine.evaluate req).Runs (resolution events ++ rest) decision →
          decision.allowed = true) ↔
        policy.failureMode ≠ .failClosed ∨ NeverFails engine policy req keyStr) := by
    intro events resolved
    simp only [DefaultEngine.evaluate, runs_resolved_iff resolved]
    exact evaluatePicked_allows_iff shadow
  rw [evaluates picked]
  by_cases concurrency : policy.algorithm.type = .concurrency
  · simp only [resolutions, if_pos concurrency, acquire_allows_iff picked shadow concurrency]
    constructor
    · rintro ⟨_, opened⟩
      exact .inl opened
    · rintro (opened | ⟨other, _⟩)
      · exact ⟨.inl opened, opened⟩
      · exact absurd concurrency other
  · simp only [resolutions, if_neg concurrency, delegate_allows_iff picked concurrency,
      evaluates pickedAgain]
    constructor
    · rintro ⟨harmless, _⟩
      exact harmless.imp_right fun never => ⟨concurrency, never⟩
    · intro harmless
      have opened := harmless.imp_right And.right
      exact ⟨opened, opened⟩

def plainBuilder : DefaultBuilder := { keyPrefix := "rlaas", sha1 := fun _ => [] }

private def watched (mode : FailureMode) : Policy :=
  { policyID := "p"
    enabled := true
    algorithm := { type := .concurrency, maxConcurrency := 1 }
    action := .deny
    failureMode := mode
    enforcementMode := .shadow }

private def lookup (policy : Policy) : List (Event PolicyOp PolicyRes) :=
  [⟨.now, ⟨0, utc⟩⟩, ⟨.cacheGet "", some [policy]⟩]

private theorem watched_picked (mode : FailureMode) :
    (pickPolicy plainBuilder {}).Runs (lookup (watched mode))
      (.ok (some (watched mode, "rlaas"))) := by
  have selected : selectPolicy plainBuilder ⟨0, utc⟩ {} [watched mode] =
      .ok (some (watched mode, "rlaas")) := rfl
  exact selected ▸ .call (.call .done)

theorem shadow_allows_of_failOpen :
    (watched .failOpen).failureMode ≠ .failClosed ∧ ∀ start,
      ((standardEngine .machine true plainBuilder).startConcurrencyLease .machine {}).Runs
        (resolution (lookup (watched .failOpen)) ++
          [⟨.env (.store (.acquireLease "rlaas:concurrency" 1 (2 * minute))), .error "timeout"⟩])
        start → start.decision.allowed = true :=
  ⟨by decide, ((shadow_allows_iff .machine (standardEngine .machine true plainBuilder) {}
    (watched .failOpen) "rlaas" _ _ (watched_picked .failOpen) (watched_picked .failOpen) rfl).mpr
      (.inl (by decide))).2 _⟩

/-- With `fail_closed`, an error of the store blocks the request on both paths. -/
theorem shadow_blocks_of_failClosed :
    ∃ decision start, decision.allowed = false ∧ start.decision.allowed = false ∧
      ((standardEngine .machine true plainBuilder).evaluate {}).Runs
        (resolution (lookup (watched .failClosed)) ++
          [⟨.env (.store (.acquireLease "rlaas:concurrency" 1 (2 * minute))), .error "timeout"⟩])
        decision ∧
      ((standardEngine .machine true plainBuilder).startConcurrencyLease .machine {}).Runs
        (resolution (lookup (watched .failClosed)) ++
          [⟨.env (.store (.acquireLease "rlaas:concurrency" 1 (2 * minute))), .error "timeout"⟩])
        start := by
  refine ⟨handleFailure (watched .failClosed) "rlaas" "timeout",
    withoutLease (handleFailure (watched .failClosed) "rlaas" "timeout"), rfl, rfl, ?_, ?_⟩
  · exact (runs_resolved_iff (watched_picked .failClosed)).mpr (.call .done)
  · exact (runs_resolved_iff (watched_picked .failClosed)).mpr (.call .done)

end Shadow

section Agreement

/-- Engine calls against a policy side of any kind and a counter store. -/
def engineEnv {π σ : Type} (policies : Handler PolicyOp PolicyRes π Time)
    (counters : Handler EnvOp EnvRes σ Time) (time : Time) :
    (op : EngineOp) → π × σ → EngineRes op × (π × σ)
  | .policy op, (side, store) =>
      let (answer, side) := policies time op side
      (answer, (side, store))
  | .env op, (side, store) =>
      let (answer, store) := counters time op store
      (answer, (side, store))

theorem leaseLimit_eq_maxLeases (cfg : AlgorithmConfig) :
    leaseLimit cfg = Concurrency.maxLeases cfg := by
  unfold leaseLimit Concurrency.maxLeases
  simp only
  split_ifs <;> rfl

theorem leaseDuration_eq_leaseTTL (A : Arith) (cfg : AlgorithmConfig) :
    leaseDuration A cfg = Concurrency.leaseTTL A cfg := rfl

theorem leaseLimit_pos (cfg : AlgorithmConfig) : 0 < leaseLimit cfg := by
  unfold leaseLimit
  simp only
  split_ifs <;> omega

theorem concurrency_exec (A : Arith) (policy : Policy) (key : String) (clock : Nat → Time)
    (store : MemoryStore) :
    (Concurrency.evaluate A policy key).exec (MemoryStore.env A) clock store =
      let limit := leaseLimit policy.algorithm
      let live := ((store.cells (key ++ ":concurrency")).lease.live (clock 0).nanos).value
      (.ok (if live < limit then
          { allowed := true
            action := .allow
            reason := "concurrency_slot_acquired"
            remaining := A.wrap (limit - (live + 1)) }
        else overLimitDecision policy (clock 1) (100 * millisecond) 0 "concurrency_limit_exceeded"),
        (store.handle A (clock 0).nanos (.acquireLease (key ++ ":concurrency") limit
          (leaseDuration A policy.algorithm))).2) := by
  have answer := MemoryStore.acquireLease_answer A (clock 0).nanos (key ++ ":concurrency")
    (leaseLimit_pos policy.algorithm) (leaseDuration A policy.algorithm) store
  unfold Concurrency.evaluate
  rw [← leaseLimit_eq_maxLeases, ← leaseDuration_eq_leaseTTL]
  simp only
  split_ifs at answer ⊢ with free
  · rw [exec_attempt_ok (MemoryStore.env A) _ clock (Prod.ext answer rfl)]
    rfl
  · rw [exec_attempt_ok (MemoryStore.env A) _ clock (Prod.ext answer rfl)]
    rfl

variable {π : Type} {policies : Handler PolicyOp PolicyRes π Time} {A : Arith}
  {builder : DefaultBuilder} {req : RequestContext} {policy : Policy} {keyStr : String}
  {clock : Nat → Time} {side : π}

theorem exec_resolved {α σ : Type} {counters : Handler EnvOp EnvRes σ Time}
    (after : Except String (Option (Policy × String)) → Program EngineOp EngineRes α) (store : σ) :
    (((pickPolicy builder req).mapOp EngineOp.policy fun _ answer => answer).bind after).exec
        (engineEnv policies counters) clock (side, store) =
      (after ((pickPolicy builder req).exec policies clock side).1).exec
        (engineEnv policies counters)
        (fun n => clock (n + ((pickPolicy builder req).events policies clock side).length))
        (((pickPolicy builder req).exec policies clock side).2, store) :=
  Program.exec_mapOp_bind (fun side => (side, store)) (fun _ _ _ => ⟨rfl, rfl⟩) _ after clock side

theorem evaluatePicked_exec (atomic : Bool) (concurrency : policy.algorithm.type = .concurrency)
    (store : MemoryStore) :
    (evaluatePicked (standardEngine A atomic builder) req (.ok (some (policy, keyStr)))).exec
        (engineEnv policies (MemoryStore.env A)) clock (side, store) =
      (conclude policy keyStr
          ((Concurrency.evaluate A policy keyStr).exec (MemoryStore.env A) clock store).1,
        side, ((Concurrency.evaluate A policy keyStr).exec (MemoryStore.env A) clock store).2) := by
  simp only [evaluatePicked, standardEngine, concurrency, kindOf, Option.map_some]
  exact Program.exec_mapOp_bind (fun store => (side, store)) (fun _ _ _ => ⟨rfl, rfl⟩) _ _ clock store

theorem leaseStartPicked_exec (engine : DefaultEngine)
    (concurrency : policy.algorithm.type = .concurrency) (store : MemoryStore) :
    (leaseStartPicked A engine req (.ok (some (policy, keyStr)))).exec
        (engineEnv policies (MemoryStore.env A)) clock (side, store) =
      let acquired := store.handle A (clock 0).nanos (.acquireLease (keyStr ++ ":concurrency")
        (leaseLimit policy.algorithm) (leaseDuration A policy.algorithm))
      (concludeLease A policy keyStr acquired.1, side, acquired.2) := by
  simp only [leaseStartPicked, concurrency]
  rfl

/-- A concurrency policy is decided alike by `Evaluate` and by the acquire path,
with the same effect on the store, exactly if it is a shadow policy, its action
does not let over-limit requests through, or the lease counter is below the limit. -/
theorem evaluate_agrees_iff {π : Type} (policies : Handler PolicyOp PolicyRes π Time) (A : Arith)
    (atomic : Bool) (builder : DefaultBuilder) (req : RequestContext) (policy : Policy)
    (keyStr : String) (clock : Nat → Time) (side : π) (store : MemoryStore)
    (picked : ((pickPolicy builder req).exec policies clock side).1 = .ok (some (policy, keyStr)))
    (concurrency : policy.algorithm.type = .concurrency) :
    let env := engineEnv policies (MemoryStore.env A)
    let evaluated := ((standardEngine A atomic builder).evaluate req).exec env clock (side, store)
    let leased := ((standardEngine A atomic builder).startConcurrencyLease A req).exec env clock
      (side, store)
    let acquiring := clock ((pickPolicy builder req).events policies clock side).length
    (evaluated.1.allowed = leased.1.decision.allowed ∧
        evaluated.1.action = leased.1.decision.action ∧ evaluated.2 = leased.2) ↔
      policy.enforcementMode = .shadow ∨ passesOverLimit policy.action = false ∨
        ((store.cells (keyStr ++ ":concurrency")).lease.live acquiring.nanos).value <
          leaseLimit policy.algorithm := by
  have keys : (standardEngine A atomic builder).keyBuilder = builder := rfl
  simp only [DefaultEngine.evaluate, DefaultEngine.startConcurrencyLease, keys, exec_resolved, picked,
    evaluatePicked_exec atomic concurrency, leaseStartPicked_exec _ concurrency, concurrency_exec,
    MemoryStore.acquireLease_answer _ _ _ (leaseLimit_pos _), Nat.zero_add]
  split_ifs with free
  · simp only [conclude, concludeLease, grantedLease, free, or_true, iff_true]
    split_ifs <;> exact ⟨rfl, rfl, trivial⟩
  · simp only [conclude, concludeLease, withoutLease, refusedLease, free, or_false]
    split_ifs with shadow
    · simp [shadow]
    · simp [shadow, overLimitDecision_allowed, overLimitDecision_action]

def limited (action : ActionType) : Policy :=
  { policyID := "p"
    enabled := true
    algorithm := { type := .concurrency, maxConcurrency := 1 }
    action
    enforcementMode := .enforce }

def listed (action : ActionType) (time : Time) :
    (op : PolicyOp) → Unit → PolicyRes op × Unit
  | .now, _ => (time, ())
  | .cacheGet _, _ => (some [limited action], ())
  | .loadPolicies _, _ => (.ok [limited action], ())
  | .cacheSet .., _ => ((), ())

/-- A store whose one lease for the key is taken. -/
private def occupiedStore : MemoryStore :=
  ((MemoryStore.newSharded 1).handle .machine 0 (.acquireLease "rlaas:concurrency" 1 0)).2

theorem evaluate_agrees_of_deny :
    let env := engineEnv (listed .deny) (MemoryStore.env .machine)
    let evaluated := ((standardEngine .machine true plainBuilder).evaluate {}).exec env
      (fun _ => ⟨0, utc⟩) ((), occupiedStore)
    let leased := ((standardEngine .machine true plainBuilder).startConcurrencyLease .machine {}).exec
      env (fun _ => ⟨0, utc⟩) ((), occupiedStore)
    evaluated.1.allowed = leased.1.decision.allowed ∧
      evaluated.1.action = leased.1.decision.action ∧ evaluated.2 = leased.2 :=
  (evaluate_agrees_iff (listed .deny) .machine true plainBuilder {} (limited .deny) "rlaas"
    (fun _ => ⟨0, utc⟩) () occupiedStore rfl rfl).mpr (.inr (.inl rfl))

/-- At the limit a `downgrade` policy passes `Evaluate` and is refused a lease. -/
theorem evaluate_disagrees_of_downgrade :
    (((standardEngine .machine true plainBuilder).evaluate {}).exec
        (engineEnv (listed .downgrade) (MemoryStore.env .machine)) (fun _ => ⟨0, utc⟩)
        ((), occupiedStore)).1.allowed = true ∧
      (((standardEngine .machine true plainBuilder).startConcurrencyLease .machine {}).exec
        (engineEnv (listed .downgrade) (MemoryStore.env .machine)) (fun _ => ⟨0, utc⟩)
        ((), occupiedStore)).1.decision.allowed = false := by
  decide

end Agreement

end Rlaas.Engine
