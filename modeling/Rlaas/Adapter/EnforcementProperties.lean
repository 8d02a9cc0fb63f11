import Rlaas.Adapter.Enforcement
import Rlaas.Algorithm.Answers
import Rlaas.Engine.AcquireProperties

/-! The enforcement points against the decision they enforce. They read different
fields of it, and so agree only for policies whose over-limit decisions carry a
refusing action or let the request through. -/

set_option autoImplicit false

namespace Rlaas.Adapter

open Go Model Store Algorithm Engine Key Effect

/-- The actions both the middleware and the interceptor refuse for. -/
def refuses : ActionType → Bool
  | .deny => true
  | .drop => true
  | .dropLowPriority => true
  | _ => false

theorem handler_passes_iff (now : Time) (d : Decision) :
    (Middleware.handler false now { decision := d }).passes = true ↔ refuses d.action = false := by
  unfold Middleware.handler
  simp only [Bool.false_eq_true, if_false]
  cases d.action with
  | deny | drop | dropLowPriority => simp [Middleware.Outcome.passes, refuses]
  | delay =>
      split_ifs <;> simp [Middleware.Outcome.passes, refuses]
  | allow | sample | downgrade | shadowOnly | other => simp [Middleware.Outcome.passes, refuses]

theorem interceptor_handled_iff (d : Decision) :
    Interceptor.unaryServerInterceptor { decision := d } = .handled ↔
      d.allowed = true ∨ refuses d.action = false := by
  unfold Interceptor.unaryServerInterceptor
  cases allowed : d.allowed with
  | true => simp [allowed]
  | false => cases action : d.action <;> simp [allowed, action, refuses]

/-- The decision lets the request through exactly if its action does not refuse. -/
def Consistent (d : Decision) : Prop := d.allowed = true ↔ refuses d.action = false

/-- All three enforcement points do with the request what the decision says. -/
structure Enforced (now : Time) (processor : Provider.BatchProcessor)
    (record : Provider.TelemetryRecord) (d : Decision) : Prop where
  http : (Middleware.handler false now { decision := d }).passes = true ↔ d.allowed = true
  grpc : Interceptor.unaryServerInterceptor { decision := d } = .handled ↔ d.allowed = true
  batch : (processor.result record { decision := d }).allowed = true ↔ d.allowed = true

theorem enforced_iff (now : Time) (processor : Provider.BatchProcessor)
    (record : Provider.TelemetryRecord) (d : Decision) :
    Enforced now processor record d ↔ Consistent d := by
  constructor
  · intro enforced
    exact enforced.http.symm.trans (handler_passes_iff now d)
  · intro agrees
    refine ⟨(handler_passes_iff now d).trans agrees.symm, ?_, Iff.rfl⟩
    rw [interceptor_handled_iff, ← agrees.eq, or_self]

theorem consistent_handleFailure (policy : Policy) (keyStr reason : String) :
    Consistent (handleFailure policy keyStr reason) := by
  unfold handleFailure Consistent
  split_ifs <;> simp [refuses]

theorem consistent_of_shadow {policy : Policy} (shadow : policy.enforcementMode = .shadow)
    (keyStr : String) (d : Decision) : Consistent (conclude policy keyStr (.ok d)) := by
  simp [conclude, shadow, Consistent, refuses]

theorem consistent_of_admitted {policy : Policy} {d : Decision} (allowed : d.allowed = true)
    (action : d.action = .allow) (keyStr : String) : Consistent (conclude policy keyStr (.ok d)) := by
  by_cases shadow : policy.enforcementMode = .shadow
  · exact consistent_of_shadow shadow keyStr d
  · simp [conclude, shadow, Consistent, refuses, allowed, action]

theorem consistent_of_refused_iff {policy : Policy} (keyStr : String) (clock : Time)
    (retryAfter : Duration) (remaining : Int) (reason : String) :
    Consistent (conclude policy keyStr
        (.ok (overLimitDecision policy clock retryAfter remaining reason))) ↔
      (passesOverLimit policy.action = true ∨ refuses policy.action = true) ∨
        policy.enforcementMode = .shadow := by
  by_cases shadow : policy.enforcementMode = .shadow
  · simp [shadow, consistent_of_shadow shadow]
  · simp only [conclude, shadow, if_false, Consistent, overLimitDecision_allowed,
      overLimitDecision_action, or_false]
    cases policy.action <;> simp [passesOverLimit, refuses]

theorem consistent_evaluatePicked_iff (A : Arith) (builder : DefaultBuilder) (req : RequestContext)
    (policy : Policy) (keyStr : String) :
    (∀ rest d, (evaluatePicked (standardEngine A true builder) req
        (.ok (some (policy, keyStr)))).Runs rest d → Consistent d) ↔
      (passesOverLimit policy.action = true ∨ refuses policy.action = true) ∨
        policy.enforcementMode = .shadow ∨ kindOf policy.algorithm.type = none := by
  cases known : kindOf policy.algorithm.type with
  | none =>
      simp only [evaluatePicked, standardEngine, known, Option.map_none, or_true, iff_true]
      intro rest d run
      cases run with
      | done => exact consistent_handleFailure policy keyStr _
  | some kind =>
      simp only [evaluatePicked, standardEngine, known, Option.map_some, reduceCtorEq, or_false]
      constructor
      · intro agrees
        obtain ⟨events, clock, retryAfter, remaining, reason, refused⟩ :=
          canRefuse_evaluate A policy req keyStr kind
        have consistent := agrees _ _ ((runs_env refused).bind .done)
        exact (consistent_of_refused_iff keyStr clock retryAfter remaining reason).mp consistent
      · intro settled rest d run
        obtain ⟨_, answer, _, _, embedded, last⟩ := run.of_bind
        obtain ⟨events, own⟩ := embedded.of_mapOp
        cases last with
        | done =>
            cases answered_of_run own with
            | failed => exact consistent_handleFailure policy keyStr _
            | refused => exact (consistent_of_refused_iff keyStr _ _ _ _).mpr settled
            | admitted allowed action => exact consistent_of_admitted allowed action keyStr

/-- Whatever the store answers, the enforcement points agree with the engine's
decision exactly if no policy is picked, or the one that is has an action that
refuses or lets over-limit requests through, is a shadow policy, or names an
unknown algorithm. -/
theorem enforcement_agrees_iff (A : Arith) (builder : DefaultBuilder) (req : RequestContext)
    (picked : Except String (Option (Policy × String))) (first : List (Event PolicyOp PolicyRes))
    (resolved : (pickPolicy builder req).Runs first picked) :
    (∀ rest d, ((standardEngine A true builder).evaluate req).Runs (resolution first ++ rest) d →
      ∀ now processor record, Enforced now processor record d) ↔
      ∀ policy keyStr, picked = .ok (some (policy, keyStr)) →
        (passesOverLimit policy.action = true ∨ refuses policy.action = true) ∨
          policy.enforcementMode = .shadow ∨ kindOf policy.algorithm.type = none := by
  have consistent : (∀ rest d, ((standardEngine A true builder).evaluate req).Runs
      (resolution first ++ rest) d → ∀ now processor record, Enforced now processor record d) ↔
      ∀ rest d, (evaluatePicked (standardEngine A true builder) req picked).Runs rest d →
        Consistent d := by
    simp only [enforced_iff]
    constructor
    · intro agrees rest d run
      exact agrees rest d ((runs_resolved_iff resolved).mpr run) ⟨0, utc⟩ ⟨true⟩ { signal := .log }
    · intro agrees rest d run _ _ _
      exact agrees rest d ((runs_resolved_iff resolved).mp run)
  rw [consistent]
  rcases picked with message | _ | ⟨policy, keyStr⟩
  · simp only [reduceCtorEq, false_implies, implies_true, iff_true]
    intro rest d run
    cases run with
    | done => simp [allowDecision, Consistent, refuses]
  · simp only [Except.ok.injEq, reduceCtorEq, false_implies, implies_true, iff_true]
    intro rest d run
    cases run with
    | done => simp [allowDecision, Consistent, refuses]
  · simp [consistent_evaluatePicked_iff]

private def keyed : DefaultBuilder := { keyPrefix := "rlaas", sha1 := fun _ => [] }

private def oneAtATime (action : ActionType) : Policy :=
  { policyID := "p"
    enabled := true
    algorithm := { type := .concurrency, maxConcurrency := 1 }
    action
    enforcementMode := .enforce }

private def resolving (action : ActionType) : List (Event PolicyOp PolicyRes) :=
  [⟨.now, ⟨0, utc⟩⟩, ⟨.cacheGet "", some [oneAtATime action]⟩]

theorem enforcement_agrees_of_deny :
    refuses (oneAtATime .deny).action = true ∧ ∀ rest d,
      ((standardEngine .machine true keyed).evaluate {}).Runs (resolution (resolving .deny) ++ rest) d →
        ∀ now processor record, Enforced now processor record d :=
  have selected : selectPolicy keyed ⟨0, utc⟩ {} [oneAtATime .deny] =
      .ok (some (oneAtATime .deny, "rlaas")) := rfl
  ⟨rfl, (enforcement_agrees_iff .machine keyed {} (.ok (some (oneAtATime .deny, "rlaas")))
    (resolving .deny) (selected ▸ .call (.call .done))).mpr fun policy keyStr same => by
      cases same
      exact .inl (.inr rfl)⟩

/-- The decision of the engine under a policy of the given action when the one
lease is taken. -/
private def atLimit (action : ActionType) : Decision :=
  (((standardEngine .machine true keyed).evaluate {}).exec
    (engineEnv (fun time op _ => match op with
      | .now => (time, ())
      | .cacheGet _ => (some [oneAtATime action], ())
      | .loadPolicies _ => (.ok [oneAtATime action], ())
      | .cacheSet .. => ((), ())) (MemoryStore.env .machine))
    (fun _ => ⟨0, utc⟩)
    ((), ((MemoryStore.newSharded 1).handle .machine 0 (.acquireLease "rlaas:concurrency" 1 0)).2)).1

/-- At the limit of a `sample` policy the decision does not allow the request; the
middleware and the interceptor pass it, the batch processor does not. -/
theorem enforcement_disagrees_of_sample :
    (atLimit .sample).allowed = false ∧
      (Middleware.handler false ⟨0, utc⟩ { decision := atLimit .sample }).passes = true ∧
      Interceptor.unaryServerInterceptor { decision := atLimit .sample } = .handled ∧
      (Provider.BatchProcessor.result ⟨true⟩ { signal := .log }
        { decision := atLimit .sample }).allowed = false := by
  decide

end Rlaas.Adapter
