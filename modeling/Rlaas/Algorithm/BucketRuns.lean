import Rlaas.Algorithm.Alone
import Rlaas.Algorithm.BucketArithmetic

/-! Calls of one bucket algorithm made one after another. Between two calls the
store holds what the last admission left, or nothing. -/

set_option autoImplicit false

namespace Rlaas.Algorithm

open Go Model Store Effect

/-- The level under the key of a bucket, in thousandths. -/
def storedLevel (levelKey : String) (store : MemoryStore) : Int := (store.cells levelKey).value.value

/-- One of the two bucket algorithms under a policy and a key, in exact arithmetic. -/
structure BucketAlgorithm where
  bucket : Bucket
  cfg : AlgorithmConfig
  rule : RequestContext → Time → BucketRule
  within : String
  serves : ∀ req now, bucket.Serves (rule req now) now
  admits : ∀ {req now old last level decision},
    (rule req now).plan old last = .take level decision → decision.reason = within
  exceeds : ∀ req now, (rule req now).exceeded ≠ within

namespace BucketAlgorithm

variable (algorithm : BucketAlgorithm)

def evaluate (call : InstantCall) : Evaluation Answer :=
  readNow fun now => bucketLoop (algorithm.rule call.req now) (maxRetries algorithm.cfg)

def visit (call : InstantCall) (store : MemoryStore) :
    Turn EnvOp EnvRes InstantCall Answer MemoryStore :=
  turn (MemoryStore.env .exact) algorithm.evaluate InstantCall.clock call store

def visits (calls : List InstantCall) (store : MemoryStore) :
    List (Turn EnvOp EnvRes InstantCall Answer MemoryStore) :=
  serial (MemoryStore.env .exact) algorithm.evaluate InstantCall.clock calls store

def visited (calls : List InstantCall) (store : MemoryStore) : MemoryStore :=
  serialState (MemoryStore.env .exact) algorithm.evaluate InstantCall.clock calls store

/-- What a call plans from what the last admission left. -/
def step (call : InstantCall) (last : Option Fill) : BucketStep :=
  algorithm.bucket.step (algorithm.rule call.req call.now) last

section Visit

variable {algorithm} {call : InstantCall} {store : MemoryStore} {last : Option Fill}

theorem visit_cases (holds : algorithm.bucket.Holds store.cells last) :
    (∃ retryAfter remaining, algorithm.step call last = .refuse retryAfter remaining ∧
        (algorithm.visit call store).result =
          .ok (overLimitDecision (algorithm.rule call.req call.now).policy call.now retryAfter
            remaining (algorithm.rule call.req call.now).exceeded) ∧
        algorithm.bucket.Holds (algorithm.visit call store).after.cells
          (algorithm.bucket.found call.now.nanos last)) ∨
      ∃ level decision, algorithm.step call last = .take level decision ∧
        (algorithm.visit call store).result = .ok decision ∧
        algorithm.bucket.Holds (algorithm.visit call store).after.cells
          (some ⟨level, call.now.nanos⟩) := by
  obtain ⟨result, kept⟩ := evaluate_exec .exact (algorithm.serves call.req call.now) holds
    algorithm.cfg
  change (algorithm.visit call store).result = _ at result
  change algorithm.bucket.Holds (algorithm.visit call store).after.cells _ at kept
  rw [result]
  unfold Bucket.after at kept
  rw [(algorithm.serves call.req call.now).nowNanos] at kept
  unfold step
  cases planned : algorithm.bucket.step (algorithm.rule call.req call.now) last with
  | refuse retryAfter remaining =>
      rw [planned] at kept
      exact .inl ⟨retryAfter, remaining, rfl, rfl, kept⟩
  | take level decision =>
      rw [planned] at kept
      exact .inr ⟨level, decision, rfl, rfl, kept⟩

theorem visit_refused (holds : algorithm.bucket.Holds store.cells last)
    (refused : answered algorithm.within (algorithm.visit call store).result = false) :
    algorithm.bucket.Holds (algorithm.visit call store).after.cells
      (algorithm.bucket.found call.now.nanos last) := by
  rcases visit_cases holds with ⟨_, _, _, _, kept⟩ | ⟨_, decision, planned, result, _⟩
  · exact kept
  · rw [result, answered, algorithm.admits planned, beq_self_eq_true] at refused
    cases refused

theorem visit_admitted (holds : algorithm.bucket.Holds store.cells last)
    (admitted : answered algorithm.within (algorithm.visit call store).result = true) :
    ∃ level decision, algorithm.step call last = .take level decision ∧
      algorithm.bucket.Holds (algorithm.visit call store).after.cells
        (some ⟨level, call.now.nanos⟩) := by
  rcases visit_cases holds with ⟨_, _, _, result, _⟩ | ⟨level, decision, planned, _, kept⟩
  · rw [result, answered, overLimitDecision_reason, beq_iff_eq] at admitted
    exact absurd admitted (algorithm.exceeds _ _)
  · exact ⟨level, decision, planned, kept⟩

theorem visit_stored (holds : algorithm.bucket.Holds store.cells last)
    (admitted : answered algorithm.within (algorithm.visit call store).result = true) :
    let level := storedLevel algorithm.bucket.levelKey (algorithm.visit call store).after
    ∃ decision, algorithm.step call last = .take level decision ∧
      algorithm.bucket.Holds (algorithm.visit call store).after.cells
        (some ⟨level, call.now.nanos⟩) := by
  obtain ⟨level, decision, planned, kept⟩ := visit_admitted holds admitted
  have stored : storedLevel algorithm.bucket.levelKey (algorithm.visit call store).after = level :=
    congrArg ValueItem.value kept.level
  rw [stored]
  exact ⟨decision, planned, kept⟩

/-- The entries a run leaves carry the time of one of its calls. -/
theorem visited_holds (timely : Int → Prop) (holds : algorithm.bucket.Holds store.cells last)
    (stamped : ∀ fill ∈ last, timely fill.stamp) {calls : List InstantCall}
    (timed : ∀ call ∈ calls, timely call.now.nanos) :
    ∃ left, algorithm.bucket.Holds (algorithm.visited calls store).cells left ∧
      ∀ fill ∈ left, timely fill.stamp := by
  refine serialState_invariant (fun store : MemoryStore =>
    ∃ left, algorithm.bucket.Holds store.cells left ∧ ∀ fill ∈ left, timely fill.stamp) ?_
    ⟨last, holds, stamped⟩
  rintro call member store ⟨last, holds, stamped⟩
  rcases visit_cases holds with ⟨_, _, _, _, kept⟩ | ⟨level, _, _, _, kept⟩
  · exact ⟨_, kept, fun fill found => stamped fill (Option.mem_filter_iff.mp found).1⟩
  · refine ⟨_, kept, fun fill written => ?_⟩
    cases written
    exact timed call member

/-- Refused calls do not change what a call finds that is not earlier than any of them. -/
theorem visited_idle (holds : algorithm.bucket.Holds store.cells last) (calls : List InstantCall)
    (refused : ∀ turn ∈ algorithm.visits calls store,
      answered algorithm.within turn.result = false) :
    ∃ left, algorithm.bucket.Holds (algorithm.visited calls store).cells left ∧
      ∀ now, (∀ call ∈ calls, call.now.nanos ≤ now) →
        algorithm.bucket.found now left = algorithm.bucket.found now last := by
  induction calls generalizing store last with
  | nil => exact ⟨last, holds, fun _ _ => rfl⟩
  | cons call rest ih =>
      obtain ⟨first, later⟩ := List.forall_mem_cons.mp refused
      obtain ⟨left, kept, found⟩ := ih (visit_refused holds first) later
      refine ⟨left, kept, fun now passed => ?_⟩
      obtain ⟨reached, others⟩ := List.forall_mem_cons.mp passed
      rw [found now others]
      exact algorithm.bucket.found_found fun fill _ gone =>
        algorithm.bucket.expired_of_le reached gone

end Visit

end BucketAlgorithm

namespace TokenBucket

def levelKey (key : String) : String := key ++ ":tb:tokens"

def tsKey (key : String) : String := key ++ ":tb:ts"

def bucket (key : String) : Bucket where
  levelKey := levelKey key
  tsKey := tsKey key
  ttl := 2 * hour
  apart := by simp [levelKey, tsKey, ← String.toList_inj]
  lasting := by decide

def algorithm (policy : Policy) (key : String) : BucketAlgorithm where
  bucket := bucket key
  cfg := policy.algorithm
  rule req now := rule .exact policy req key now
  within := "token_available"
  serves _ _ := ⟨rfl, rfl, rfl, rfl⟩
  admits planned := (plan_admits planned).2.2
  exceeds _ _ := by simp [rule]

end TokenBucket

namespace LeakyBucket

def levelKey (key : String) : String := key ++ ":lb:level"

def tsKey (key : String) : String := key ++ ":lb:ts"

theorem le_ttl (A : Arith) (cfg : AlgorithmConfig) : 2 * hour ≤ ttl A cfg := by
  unfold ttl
  simp only
  split
  · exact le_refl _
  · next long => exact not_lt.mp long

def bucket (cfg : AlgorithmConfig) (key : String) : Bucket where
  levelKey := levelKey key
  tsKey := tsKey key
  ttl := ttl .exact cfg
  apart := by simp [levelKey, tsKey, ← String.toList_inj]
  lasting := lt_of_lt_of_le (by decide) (le_ttl .exact cfg)

def algorithm (policy : Policy) (key : String) : BucketAlgorithm where
  bucket := bucket policy.algorithm key
  cfg := policy.algorithm
  rule req now := rule .exact policy req key now
  within := "within_leaky_bucket"
  serves _ _ := ⟨rfl, rfl, rfl, rfl⟩
  admits planned := (plan_admits planned).2.2
  exceeds _ _ := by simp [rule]

end LeakyBucket

theorem Bucket.Holds.seen_level {bucket : Bucket} {store : MemoryStore} {last : Option Fill}
    (holds : bucket.Holds store.cells last) (now : Int) :
    seen store now bucket.levelKey = (bucket.item Fill.level (bucket.found now last)).value := by
  rw [seen, holds.level, bucket.item_live]

theorem Bucket.Holds.seen_stamp {bucket : Bucket} {store : MemoryStore} {last : Option Fill}
    (holds : bucket.Holds store.cells last) (now : Int) :
    seen store now bucket.tsKey = (bucket.item Fill.stamp (bucket.found now last)).value := by
  rw [seen, holds.stamp, bucket.item_live]

end Rlaas.Algorithm
