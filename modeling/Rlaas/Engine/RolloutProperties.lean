import Rlaas.Engine.Evaluator

/-! Which percentages of a rollout keep a policy for a request. -/

set_option autoImplicit false

namespace Rlaas.Engine

open Go Model Store

variable {policy : Policy}

/-- An enabled policy at an instant of its validity. -/
structure InForce (now : Time) (policy : Policy) : Prop where
  enabled : policy.enabled = true
  started : 0 < policy.validFromUnix → policy.validFromUnix ≤ now.unix
  unexpired : 0 < policy.validToUnix → now.unix ≤ policy.validToUnix

/-- Whether `pickPolicy` keeps the policy as a candidate at a percentage. -/
def keptAt (now : Time) (req : RequestContext) (policy : Policy) (percent : Int) : Bool :=
  isCandidate now req { policy with rolloutPercent := percent }

def rolloutBucket (policy : Policy) (req : RequestContext) : Nat :=
  (fnv32a (policy.policyID ++ ":" ++ rolloutSeed req)).toNat % 100

theorem rolloutBucket_lt (policy : Policy) (req : RequestContext) :
    rolloutBucket policy req < 100 := Nat.mod_lt _ (by decide)

theorem isInRollout_iff {req : RequestContext} (positive : 0 < policy.rolloutPercent) :
    isInRollout policy req = true ↔ (rolloutBucket policy req : Int) < policy.rolloutPercent := by
  have bucket := rolloutBucket_lt policy req
  unfold isInRollout
  rw [if_neg (by omega)]
  split
  · next whole => exact iff_of_true rfl (by omega)
  · exact decide_eq_true_iff

/-- `pickPolicy` asks for the bucket only between the two ends, so that a percentage of
zero keeps every request where `isInRollout` would keep none. -/
theorem isCandidate_iff {now : Time} (force : InForce now policy) (req : RequestContext) :
    isCandidate now req policy = true ↔
      policy.rolloutPercent ≤ 0 ∨ (rolloutBucket policy req : Int) < policy.rolloutPercent := by
  have started : ¬(policy.validFromUnix > 0 && decide (now.unix < policy.validFromUnix)) := by
    have bound := force.started
    simp only [gt_iff_lt, Bool.and_eq_true, decide_eq_true_eq]
    omega
  have unexpired : ¬(policy.validToUnix > 0 && decide (now.unix > policy.validToUnix)) := by
    have bound := force.unexpired
    simp only [gt_iff_lt, Bool.and_eq_true, decide_eq_true_eq]
    omega
  have bucket := rolloutBucket_lt policy req
  have enabled : ¬(!policy.enabled) = true := by simp [force.enabled]
  rw [isCandidate, if_neg enabled, if_neg started, if_neg unexpired]
  by_cases positive : 0 < policy.rolloutPercent
  · have inside : isInRollout policy req = true ↔ _ := isInRollout_iff positive
    rw [or_iff_right (not_le.mpr positive), ← inside]
    cases covered : isInRollout policy req with
    | true => simp
    | false =>
        have partly : policy.rolloutPercent < 100 := by
          have outside := mt inside.mpr (by simp [covered])
          omega
        simp [positive, partly]
  · simp [positive, not_lt.mp positive]

theorem keptAt_iff {now : Time} (force : InForce now policy) (req : RequestContext)
    (percent : Int) :
    keptAt now req policy percent = true ↔
      percent ≤ 0 ∨ (rolloutBucket policy req : Int) < percent := by
  have moved : InForce now { policy with rolloutPercent := percent } :=
    ⟨force.enabled, force.started, force.unexpired⟩
  exact isCandidate_iff moved req

/-- A positive rollout only grows with its percentage. Zero is no rollout at all but a full
one, from which raising the percentage drops every request outside the bucket. -/
theorem rollout_kept {now : Time} (force : InForce now policy) (req : RequestContext) :
    keptAt now req policy 0 = true ∧ keptAt now req policy 100 = true ∧
      (∀ p q, 0 < p → p ≤ q → q ≤ 100 → keptAt now req policy p = true →
        keptAt now req policy q = true) ∧
      ((∀ p q, 0 ≤ p → p ≤ q → q ≤ 100 → keptAt now req policy p = true →
        keptAt now req policy q = true) ↔ rolloutBucket policy req = 0) := by
  have bucket := rolloutBucket_lt policy req
  simp only [keptAt_iff force]
  refine ⟨.inl le_rfl, .inr (by omega), fun p q positive raised _ kept => by omega, ?_, ?_⟩
  · intro grows
    have first := grows 0 1 le_rfl (by decide) (by decide) (.inl le_rfl)
    omega
  · intro zero p q _ raised _ kept
    omega

private def activePolicy : Policy := { policyID := "p", enabled := true }

private theorem activePolicy_force : InForce ⟨0, utc⟩ activePolicy where
  enabled := rfl
  started positive := absurd positive (by decide)
  unexpired positive := absurd positive (by decide)

theorem rollout_kept_of_active :
    InForce ⟨0, utc⟩ activePolicy ∧
      keptAt ⟨0, utc⟩ { requestID := "r" } activePolicy 100 = true :=
  ⟨activePolicy_force, (rollout_kept activePolicy_force { requestID := "r" }).2.1⟩

/-- A rollout of zero keeps a request that a rollout of one percent does not. -/
theorem rollout_zero_keeps :
    InForce ⟨0, utc⟩ activePolicy ∧
      keptAt ⟨0, utc⟩ { requestID := "r" } activePolicy 0 = true ∧
      keptAt ⟨0, utc⟩ { requestID := "r" } activePolicy 1 = false :=
  ⟨activePolicy_force, by decide +kernel⟩

end Rlaas.Engine
