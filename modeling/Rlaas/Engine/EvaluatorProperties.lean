import Rlaas.Engine.Evaluator
import Rlaas.Algorithm.Charging

/-! The engine's decision and what the call has charged. -/

set_option autoImplicit false

namespace Rlaas.Engine

open Go Model Store Algorithm Key Effect

def engineCharges : (op : EngineOp) → EngineRes op → Bool
  | .env op, answer => charges op answer
  | .policy _, _ => false

def chargeCount (events : List (Event EngineOp EngineRes)) : Nat :=
  (events.filter fun event => engineCharges event.op event.result).length

def resolution (events : List (Event PolicyOp PolicyRes)) : List (Event EngineOp EngineRes) :=
  events.map fun event => ⟨.policy event.op, event.result⟩

private def engineRecord (ledger : Ledger) : (op : EngineOp) → EngineRes op → Ledger
  | .env op, answer => ledger.record op answer
  | .policy _, _ => ledger

private def concluded (policy : Policy) (keyStr : String) :
    Monitor EngineOp EngineRes Ledger Decision where
  expects _ _ _ := True
  guard _ _ := True
  advance := engineRecord
  accept ledger decision :=
    ∃ answer, Settled policy ledger answer ∧ decision = conclude policy keyStr answer

theorem chargeCount_resolution (first : List (Event PolicyOp PolicyRes))
    (rest : List (Event EngineOp EngineRes)) :
    chargeCount (resolution first ++ rest) = chargeCount rest := by
  simp [chargeCount, resolution, List.filter_append, List.filter_map, engineCharges,
    Function.comp_def]

private theorem follow_charged (policy : Policy) (keyStr : String)
    (events : List (Event EngineOp EngineRes)) (ledger : Ledger) :
    ((concluded policy keyStr).follow ledger events).charged =
      ledger.charged + chargeCount events := by
  induction events generalizing ledger with
  | nil => rfl
  | cons event rest ih =>
      obtain ⟨op, answer⟩ := event
      rw [Monitor.follow_cons, ih]
      cases op with
      | policy op => rfl
      | env op =>
          cases charging : charges op answer with
          | false =>
              simp [concluded, engineRecord, Ledger.record, chargeCount, engineCharges, charging]
          | true =>
              simp [concluded, engineRecord, Ledger.record, chargeCount, engineCharges, charging]
              omega

private theorem evaluatePicked_concludes (A : Arith) (builder : DefaultBuilder)
    (req : RequestContext) (policy : Policy) (keyStr : String) :
    (concluded policy keyStr).Accepts {}
      (evaluatePicked (standardEngine A true builder) req (.ok (some (policy, keyStr)))) := by
  simp only [evaluatePicked, standardEngine]
  cases known : kindOf policy.algorithm.type with
  | none => exact ⟨.error "algorithm not configured", .failed, rfl⟩
  | some kind =>
      refine Monitor.accepts_mapOp_bind (settlement policy) (concluded policy keyStr)
        (fun _ _ _ => trivial) (fun _ _ _ _ => trivial) (fun _ _ _ => rfl) ?_
        (evaluate_settles A policy req keyStr kind)
      intro ledger answer settled
      exact ⟨answer, settled, rfl⟩

/-- The actions under which `OverLimitDecision` lets the request through. -/
def passesOverLimit : ActionType → Bool
  | .delay => true
  | .downgrade => true
  | .shadowOnly => true
  | _ => false

theorem overLimitDecision_allowed (policy : Policy) (clock : Time) (retryAfter : Duration)
    (remaining : Int) (reason : String) :
    (overLimitDecision policy clock retryAfter remaining reason).allowed =
      passesOverLimit policy.action := by
  unfold overLimitDecision
  cases policy.action <;> rfl

/-- For a resolved enforce-mode, fail-closed policy whose action does not let
over-limit requests through, the engine admits exactly the calls that charged
once, and every other call has charged nothing. -/
theorem evaluate_allowed_iff_charged (A : Arith) (builder : DefaultBuilder) (req : RequestContext)
    (policy : Policy) (keyStr : String) (first : List (Event PolicyOp PolicyRes))
    (rest : List (Event EngineOp EngineRes)) (decision : Decision)
    (enforced : policy.enforcementMode = .enforce) (closed : policy.failureMode = .failClosed)
    (action : passesOverLimit policy.action = false)
    (picked : (pickPolicy builder req).Runs first (.ok (some (policy, keyStr))))
    (run : ((standardEngine A true builder).evaluate req).Runs (resolution first ++ rest) decision) :
    (decision.allowed = true ↔ chargeCount (resolution first ++ rest) = 1) ∧
      (decision.allowed = false ↔ chargeCount (resolution first ++ rest) = 0) := by
  have continued := Program.Runs.mapOp_after EngineOp.policy (fun _ answer => answer)
    (fun _ answer => answer) (fun _ _ => rfl) picked run
  obtain ⟨answer, settled, rfl⟩ := (evaluatePicked_concludes A builder req policy keyStr).result
    continued fun _ _ _ => trivial
  have counted := follow_charged policy keyStr rest {}
  rw [chargeCount_resolution]
  generalize (concluded policy keyStr).follow {} rest = ledger at settled counted
  cases settled with
  | failed =>
      simp [conclude, handleFailure, closed] at counted ⊢
      omega
  | refused known =>
      simp [conclude, enforced, overLimitDecision_allowed, action] at counted ⊢
      omega
  | admitted allowed within =>
      simp [conclude, enforced, allowed] at counted ⊢
      omega

private def soleBuilder : DefaultBuilder := { keyPrefix := "rlaas", sha1 := fun _ => [] }

private def solePolicy : Policy :=
  { policyID := "p"
    enabled := true
    algorithm := { type := .concurrency, maxConcurrency := 2 }
    action := .deny
    failureMode := .failClosed
    enforcementMode := .enforce }

private theorem solePolicy_picked :
    selectPolicy soleBuilder ⟨0, utc⟩ {} [solePolicy] = .ok (some (solePolicy, "rlaas")) := by
  decide

theorem evaluate_allowed_of_lease :
    chargeCount (resolution [⟨.now, ⟨0, utc⟩⟩, ⟨.cacheGet "", some [solePolicy]⟩] ++
      [⟨.env (.store (.acquireLease "rlaas:concurrency" 2 (2 * minute))), .ok (true, 1)⟩]) = 1 :=
  have picked : (pickPolicy soleBuilder {}).Runs
      [⟨.now, ⟨0, utc⟩⟩, ⟨.cacheGet "", some [solePolicy]⟩] (.ok (some (solePolicy, "rlaas"))) :=
    solePolicy_picked ▸ .call (.call .done)
  (evaluate_allowed_iff_charged Arith.exact soleBuilder {} solePolicy "rlaas" _ _
    { allowed := true
      action := .allow
      reason := "concurrency_slot_acquired"
      matchedPolicyID := "p"
      limitKey := "rlaas"
      remaining := 1 } rfl rfl rfl picked (by
      refine .call (.call ?_)
      change Program.Runs (evaluatePicked _ _ (selectPolicy soleBuilder ⟨0, utc⟩ {} [solePolicy])) _ _
      rw [solePolicy_picked]
      exact .call .done)).1.mp rfl

end Rlaas.Engine
