import Rlaas.Algorithm.RefillProperties

/-! What the expiry of a bucket's entries gives back: how long an admission is
remembered against how long the bucket needs to make up for it. -/

set_option autoImplicit false

namespace Rlaas.Algorithm

open Go Model Store Effect

variable {store : MemoryStore} {policy : Policy}
variable {key : String}

/-- An instant that is not earlier than an admission and the refused calls after it. -/
structure Waits (within : String) (since : Int) (waiting : List InstantCall)
    (turns : List (Turn EnvOp EnvRes InstantCall Answer MemoryStore)) (now : Int) : Prop where
  opened : since ≤ now
  passed : ∀ call ∈ waiting, call.now.nanos ≤ now
  refused : ∀ turn ∈ turns, answered within turn.result = false

/-- Waiting changes nothing about what a call reads of the last admission. -/
theorem BucketAlgorithm.waits_iff (algorithm : BucketAlgorithm) {fill : Fill}
    (holds : algorithm.bucket.Holds store.cells (some fill)) (property : Int → Int → Int → Prop) :
    (∀ waiting now, Waits algorithm.within fill.stamp waiting (algorithm.visits waiting store) now →
        property (seen (algorithm.visited waiting store) now algorithm.bucket.levelKey)
          (seen (algorithm.visited waiting store) now algorithm.bucket.tsKey) now) ↔
      ∀ now, fill.stamp ≤ now →
        property (algorithm.bucket.item Fill.level (algorithm.bucket.found now (some fill))).value
          (algorithm.bucket.item Fill.stamp (algorithm.bucket.found now (some fill))).value now := by
  constructor
  · intro always now opened
    rw [← holds.seen_level, ← holds.seen_stamp]
    exact always [] now ⟨opened, by simp, by simp [visits, serial]⟩
  · intro alone waiting now waits
    obtain ⟨left, kept, found⟩ := visited_idle holds waiting waits.refused
    rw [kept.seen_level, kept.seen_stamp, found now waits.passed]
    exact alone now waits.opened

/-- The first instant at which entries written at this one have expired. -/
def Bucket.forgotten (bucket : Bucket) (stamp : Int) : Int := stamp + bucket.ttl + 1

/-- An expiry that falls on the zero time is read as none. -/
def Bucket.Forgets (bucket : Bucket) (stamp : Int) : Prop := stamp + bucket.ttl ≠ zeroNanos

section Expiry

variable {bucket : Bucket} {fill : Fill} {now : Int}

theorem Bucket.expired_forgotten (forgets : bucket.Forgets fill.stamp) :
    bucket.expired (bucket.forgotten fill.stamp) fill = true := by
  unfold expired ValueItem.expired
  exact Bool.and_eq_true_iff.mpr ⟨decide_eq_true forgets, decide_eq_true (Int.lt_succ _)⟩

theorem Bucket.forgotten_le (gone : bucket.expired now fill = true) :
    bucket.Forgets fill.stamp ∧ bucket.forgotten fill.stamp ≤ now := by
  unfold expired ValueItem.expired at gone
  obtain ⟨set, passed⟩ := Bool.and_eq_true_iff.mp gone
  rw [decide_eq_true_eq] at set passed
  exact ⟨set, passed⟩

theorem Bucket.stamp_le_forgotten (bucket : Bucket) (stamp : Int) : stamp ≤ bucket.forgotten stamp := by
  have lasting : (0 : Int) < bucket.ttl := bucket.lasting
  unfold forgotten
  omega

end Expiry

namespace TokenBucket

/-- The tokens a call works with at an instant. -/
def tokensAt (A : Arith) (cfg : AlgorithmConfig) (key : String) (store : MemoryStore) (now : Int) :
    GoFloat :=
  curTokens A cfg now (seen store now (levelKey key)) (seen store now (tsKey key))

/-- The tokens that an admission left and that were refilled since. -/
def refilledSince (cfg : AlgorithmConfig) (rate : ℚ) (fill : Fill) (now : Int) : ℚ :=
  min (capacity cfg) ((fill.level : ℚ) / 1000 + rate * (((now - fill.stamp : Int) : ℚ) / 1000000000))

section Tokens

variable {cfg : AlgorithmConfig} {key : String} {rate : ℚ} {fill : Fill} {now : Int}

theorem tokensFound_of_expired (gone : (bucket key).expired now fill = true) :
    tokensFound cfg rate key now (some fill) = capacity cfg := by
  rw [tokensFound, (bucket key).found_of_expired gone]
  exact if_pos rfl

theorem tokensFound_of_unexpired (fresh : (bucket key).expired now fill = false)
    (used : fill.stamp ≠ 0) (ordered : fill.stamp ≤ now) :
    tokensFound cfg rate key now (some fill) = refilledSince cfg rate fill now := by
  rw [tokensFound, (bucket key).found_of_unexpired fresh, refilledSince, mul_comm rate,
    ← elapsed_of_le ordered]
  exact if_neg used

theorem tokensFound_of_unused (unused : fill.stamp = 0) :
    tokensFound cfg rate key fill.stamp (some fill) = capacity cfg := by
  cases gone : (bucket key).expired fill.stamp fill with
  | true => exact tokensFound_of_expired gone
  | false =>
      rw [tokensFound, (bucket key).found_of_unexpired gone]
      exact if_pos unused

/-- An admission is forgotten no earlier than it is made up for: its stamp is not the one that
marks an unused bucket, and the bucket is full when its entries expire. -/
theorem tokensFound_le_iff (pays : 0 < rate) (drawn : (fill.level : ℚ) / 1000 < capacity cfg) :
    (∀ now, fill.stamp ≤ now →
        tokensFound cfg rate key now (some fill) ≤ refilledSince cfg rate fill now) ↔
      fill.stamp ≠ 0 ∧ ((bucket key).Forgets fill.stamp →
        (capacity cfg : ℚ) ≤ (fill.level : ℚ) / 1000 +
          rate * (((2 * hour + 1 : Int) : ℚ) / 1000000000)) := by
  constructor
  · intro bounded
    refine ⟨fun unused => ?_, fun forgets => ?_⟩
    · have full := bounded fill.stamp (le_refl _)
      rw [tokensFound_of_unused unused, refilledSince, sub_self, Int.cast_zero, zero_div, mul_zero,
        add_zero] at full
      exact absurd drawn (not_lt.mpr (full.trans (min_le_right _ _)))
    · have full := bounded _ ((bucket key).stamp_le_forgotten fill.stamp)
      rw [tokensFound_of_expired (Bucket.expired_forgotten forgets)] at full
      have passed : (bucket key).forgotten fill.stamp - fill.stamp = 2 * hour + 1 := by
        unfold Bucket.forgotten bucket
        ring
      rw [← passed]
      exact full.trans (min_le_right _ _)
  · rintro ⟨used, refilled⟩ now ordered
    cases gone : (bucket key).expired now fill with
    | false => exact (tokensFound_of_unexpired gone used ordered).le
    | true =>
        obtain ⟨forgets, passed⟩ := Bucket.forgotten_le gone
        rw [tokensFound_of_expired gone]
        refine le_min (le_refl _) ((refilled forgets).trans ?_)
        have later : ((2 * hour + 1 : Int) : ℚ) ≤ ((now - fill.stamp : Int) : ℚ) := by
          have reached : fill.stamp + 2 * hour + 1 ≤ now := passed
          exact_mod_cast (by linarith : (2 * hour + 1 : Int) ≤ now - fill.stamp)
        gcongr

end Tokens

/-- However long a call waits after the admission that left this store, it works with no more
than was left and refilled since. -/
def NeverEarly (policy : Policy) (key : String) (rate : ℚ) (fill : Fill) (store : MemoryStore) :
    Prop :=
  ∀ waiting now,
    Waits "token_available" fill.stamp waiting
      (visits .exact .tokenBucket policy key waiting store) now →
    (tokensAt .exact policy.algorithm key
        (visited .exact .tokenBucket policy key waiting store) now).le
      (.fin (refilledSince policy.algorithm rate fill now)) = true

theorem neverEarly_iff {rate : ℚ} {fill : Fill}
    (refill : refillRate .exact policy.algorithm = .fin rate)
    (drawn : (fill.level : ℚ) / 1000 < capacity policy.algorithm)
    (holds : (bucket key).Holds store.cells (some fill)) :
    NeverEarly policy key rate fill store ↔
      fill.stamp ≠ 0 ∧ ((bucket key).Forgets fill.stamp →
        (capacity policy.algorithm : ℚ) ≤ (fill.level : ℚ) / 1000 +
          rate * (((2 * hour + 1 : Int) : ℚ) / 1000000000)) := by
  have waits : NeverEarly policy key rate fill store ↔ _ :=
    (algorithm policy key).waits_iff holds fun level last now =>
      (curTokens .exact policy.algorithm now level last).le
        (.fin (refilledSince policy.algorithm rate fill now)) = true
  rw [waits, ← tokensFound_le_iff (refillRate_pos refill) drawn]
  refine forall₂_congr fun now ordered => ?_
  rw [curTokens_exact refill, GoFloat.le_fin, decide_eq_true_eq]
  rfl

theorem fill_of_admitted {rate : ℚ} {last : Option Fill} {call : InstantCall}
    (refill : refillRate .exact policy.algorithm = .fin rate)
    (holds : (bucket key).Holds store.cells last)
    (admitted : answered "token_available"
      ((algorithm policy key).visit call store).result = true) :
    (bucket key).Holds ((algorithm policy key).visit call store).after.cells
        (some ⟨storedLevel (levelKey key) ((algorithm policy key).visit call store).after, call.now.nanos⟩) ∧
      (storedLevel (levelKey key) ((algorithm policy key).visit call store).after : ℚ) / 1000 <
        capacity policy.algorithm := by
  obtain ⟨decision, planned, kept⟩ := BucketAlgorithm.visit_stored holds admitted
  refine ⟨kept, ?_⟩
  change (storedLevel (algorithm policy key).bucket.levelKey _ : ℚ) / 1000 < _
  obtain ⟨_, bounded⟩ := plan_take refill planned
  have full := bounded.trans (add_le_add (tokens_le_capacity _ _ _ _ _) le_rfl)
  have least : (1 : ℚ) ≤ cost call.req policy.algorithm := by exact_mod_cast cost_pos _ _
  linarith

end TokenBucket

namespace LeakyBucket

/-- The level a call works with at an instant, before it adds its cost. -/
def levelAt (A : Arith) (cfg : AlgorithmConfig) (key : String) (store : MemoryStore) (now : Int) :
    GoFloat :=
  drainedLevel A cfg now (seen store now (levelKey key)) (seen store now (tsKey key))

/-- What is left of the level of an admission after it leaked. -/
def leakedSince (rate : ℚ) (fill : Fill) (now : Int) : ℚ :=
  max 0 ((fill.level : ℚ) / 1000 - rate * (((now - fill.stamp : Int) : ℚ) / 1000000000))

def levelFound (cfg : AlgorithmConfig) (rate : ℚ) (key : String) (now : Int) (last : Option Fill) :
    ℚ :=
  level rate now ((bucket cfg key).item Fill.level ((bucket cfg key).found now last)).value
    ((bucket cfg key).item Fill.stamp ((bucket cfg key).found now last)).value

section Level

variable {cfg : AlgorithmConfig} {key : String} {rate : ℚ} {fill : Fill} {now : Int}

theorem levelFound_of_expired (gone : (bucket cfg key).expired now fill = true) :
    levelFound cfg rate key now (some fill) = 0 := by
  rw [levelFound, (bucket cfg key).found_of_expired gone]
  simp [level, Bucket.item]

theorem leakedSince_le_of_unexpired (pays : 0 < rate)
    (fresh : (bucket cfg key).expired now fill = false) (ordered : fill.stamp ≤ now) :
    leakedSince rate fill now ≤ levelFound cfg rate key now (some fill) := by
  rw [levelFound, (bucket cfg key).found_of_unexpired fresh, leakedSince, ← elapsed_of_le ordered]
  refine max_le_max (le_refl 0) (sub_le_sub_left ?_ _)
  rw [mul_comm rate]
  by_cases unused : fill.stamp = 0
  · have gained := mul_nonneg (elapsed_nonneg fill.stamp now) pays.le
    rw [if_pos (show ((bucket cfg key).item Fill.stamp (some fill)).value = 0 from unused), zero_mul]
    exact gained
  · rw [if_neg (show ((bucket cfg key).item Fill.stamp (some fill)).value ≠ 0 from unused)]
    exact le_refl _

/-- An admission is forgotten no earlier than its level has leaked. -/
theorem le_levelFound_iff (pays : 0 < rate) :
    (∀ now, fill.stamp ≤ now →
        leakedSince rate fill now ≤ levelFound cfg rate key now (some fill)) ↔
      ((bucket cfg key).Forgets fill.stamp → (fill.level : ℚ) / 1000 ≤
        rate * (((ttl .exact cfg + 1 : Int) : ℚ) / 1000000000)) := by
  constructor
  · intro bounded forgets
    have drained := bounded _ ((bucket cfg key).stamp_le_forgotten fill.stamp)
    rw [levelFound_of_expired (Bucket.expired_forgotten forgets)] at drained
    have passed : (bucket cfg key).forgotten fill.stamp - fill.stamp = ttl .exact cfg + 1 := by
      unfold Bucket.forgotten bucket
      ring
    rw [leakedSince, passed] at drained
    exact sub_nonpos.mp ((le_max_right _ _).trans drained)
  · intro leaked now ordered
    cases gone : (bucket cfg key).expired now fill with
    | false => exact leakedSince_le_of_unexpired pays gone ordered
    | true =>
        obtain ⟨forgets, passed⟩ := Bucket.forgotten_le gone
        rw [levelFound_of_expired gone]
        refine max_le (le_refl 0) (sub_nonpos.mpr ((leaked forgets).trans ?_))
        have later : ((ttl .exact cfg + 1 : Int) : ℚ) ≤ ((now - fill.stamp : Int) : ℚ) := by
          have reached : fill.stamp + ttl .exact cfg + 1 ≤ now := passed
          exact_mod_cast (by linarith : (ttl .exact cfg + 1 : Int) ≤ now - fill.stamp)
        gcongr

end Level

/-- However long a call waits after the admission that left this store, it works with no less
than what has not leaked of its level. -/
def NeverEarly (policy : Policy) (key : String) (rate : ℚ) (fill : Fill) (store : MemoryStore) :
    Prop :=
  ∀ waiting now,
    Waits "within_leaky_bucket" fill.stamp waiting
      (visits .exact .leakyBucket policy key waiting store) now →
    GoFloat.le (.fin (leakedSince rate fill now)) (levelAt .exact policy.algorithm key
      (visited .exact .leakyBucket policy key waiting store) now) = true

theorem neverEarly_iff {rate : ℚ} {fill : Fill} (leaks : leakRate policy.algorithm = .fin rate)
    (holds : (bucket policy.algorithm key).Holds store.cells (some fill)) :
    NeverEarly policy key rate fill store ↔
      ((bucket policy.algorithm key).Forgets fill.stamp → (fill.level : ℚ) / 1000 ≤
        rate * (((ttl .exact policy.algorithm + 1 : Int) : ℚ) / 1000000000)) := by
  have waits : NeverEarly policy key rate fill store ↔ _ :=
    (algorithm policy key).waits_iff holds fun milli last now =>
      GoFloat.le (.fin (leakedSince rate fill now))
        (drainedLevel .exact policy.algorithm now milli last) = true
  rw [waits, ← le_levelFound_iff (leakRate_pos leaks)]
  refine forall₂_congr fun now ordered => ?_
  rw [drainedLevel_exact leaks, GoFloat.le_fin, decide_eq_true_eq]
  rfl

end LeakyBucket

/-- The expiry of its entries gives a bucket nothing back early exactly when they live as long as
the bucket needs to make up for what the last admission left. -/
theorem expiry_never_early_iff (policy : Policy) (key : String) (store : MemoryStore)
    (before : List InstantCall) (opening : InstantCall) :
    (∀ rate left, TokenBucket.refillRate .exact policy.algorithm = .fin rate →
      (TokenBucket.bucket key).Holds store.cells none →
      answered "token_available"
        (visitAfter .exact .tokenBucket policy key before opening store).result = true →
      left = (visitAfter .exact .tokenBucket policy key before opening store).after →
      (TokenBucket.NeverEarly policy key rate
          ⟨storedLevel (TokenBucket.levelKey key) left, opening.now.nanos⟩ left ↔
        opening.now.nanos ≠ 0 ∧ ((TokenBucket.bucket key).Forgets opening.now.nanos →
          (TokenBucket.capacity policy.algorithm : ℚ) ≤
            (storedLevel (TokenBucket.levelKey key) left : ℚ) / 1000 +
              rate * (((2 * hour + 1 : Int) : ℚ) / 1000000000)))) ∧
    ∀ rate left, LeakyBucket.leakRate policy.algorithm = .fin rate →
      (LeakyBucket.bucket policy.algorithm key).Holds store.cells none →
      answered "within_leaky_bucket"
        (visitAfter .exact .leakyBucket policy key before opening store).result = true →
      left = (visitAfter .exact .leakyBucket policy key before opening store).after →
      (LeakyBucket.NeverEarly policy key rate
          ⟨storedLevel (LeakyBucket.levelKey key) left, opening.now.nanos⟩ left ↔
        ((LeakyBucket.bucket policy.algorithm key).Forgets opening.now.nanos →
          (storedLevel (LeakyBucket.levelKey key) left : ℚ) / 1000 ≤
            rate * (((LeakyBucket.ttl .exact policy.algorithm + 1 : Int) : ℚ) / 1000000000))) := by
  constructor
  · rintro rate left refill absent admitted rfl
    have empty : (TokenBucket.algorithm policy key).bucket.Holds store.cells none := absent
    obtain ⟨last, holds, _⟩ := BucketAlgorithm.visited_holds (fun _ => True) empty
      (fun _ _ => trivial) fun call (_ : call ∈ before) => trivial
    obtain ⟨kept, drawn⟩ := TokenBucket.fill_of_admitted refill holds admitted
    exact TokenBucket.neverEarly_iff refill drawn kept
  · rintro rate left leaks absent admitted rfl
    have empty : (LeakyBucket.algorithm policy key).bucket.Holds store.cells none := absent
    obtain ⟨last, holds, _⟩ := BucketAlgorithm.visited_holds (fun _ => True) empty
      (fun _ _ => trivial) fun call (_ : call ∈ before) => trivial
    obtain ⟨_, _, kept⟩ := BucketAlgorithm.visit_stored holds admitted
    exact LeakyBucket.neverEarly_iff leaks kept

private def tenEach (rate : ℚ) : Policy :=
  { algorithm := { limit := 10, refillRate := .fin rate, leakRate := .fin rate } }

private def drainingCall : InstantCall := ⟨{ quantity := 10 }, ⟨second, utc⟩⟩

private def emptied (kind : Kind) (rate : ℚ) : MemoryStore :=
  (visitAfter .exact kind (tenEach rate) "k" [] drainingCall (.newSharded 1)).after

theorem expiry_never_early_of_fast :
    TokenBucket.NeverEarly (tenEach 1) "k" 1 ⟨storedLevel (TokenBucket.levelKey "k") (emptied .tokenBucket 1),
        second⟩ (emptied .tokenBucket 1) ∧
      LeakyBucket.NeverEarly (tenEach 1) "k" 1 ⟨storedLevel (LeakyBucket.levelKey "k") (emptied .leakyBucket 1),
        second⟩ (emptied .leakyBucket 1) :=
  have both := expiry_never_early_iff (tenEach 1) "k" (.newSharded 1) [] drainingCall
  ⟨(both.1 1 _ (by decide +kernel) ⟨rfl, rfl⟩ (by decide +kernel) rfl).mpr
      ⟨by decide, fun _ => by decide +kernel⟩,
    (both.2 1 _ (by decide +kernel) ⟨rfl, rfl⟩ (by decide +kernel) rfl).mpr
      fun _ => by decide +kernel⟩

/-- At a token and a leak an hour, two hours make up for two of the ten units taken; then the
entries expire and the other eight are forgotten too. -/
theorem expiry_gives_back_early :
    ¬TokenBucket.NeverEarly (tenEach (1 / 3600)) "k" (1 / 3600)
        ⟨storedLevel (TokenBucket.levelKey "k") (emptied .tokenBucket (1 / 3600)), second⟩
        (emptied .tokenBucket (1 / 3600)) ∧
      ¬LeakyBucket.NeverEarly (tenEach (1 / 3600)) "k" (1 / 3600)
        ⟨storedLevel (LeakyBucket.levelKey "k") (emptied .leakyBucket (1 / 3600)), second⟩
        (emptied .leakyBucket (1 / 3600)) := by
  have waited : second ≤ second + 2 * hour + 1 := by decide
  refine ⟨fun early => ?_, fun early => ?_⟩
  · have full := early [] (second + 2 * hour + 1) ⟨waited, by simp, by simp [visits, serial]⟩
    exact absurd full (by decide +kernel)
  · have drained := early [] (second + 2 * hour + 1) ⟨waited, by simp, by simp [visits, serial]⟩
    exact absurd drained (by decide +kernel)

end Rlaas.Algorithm
