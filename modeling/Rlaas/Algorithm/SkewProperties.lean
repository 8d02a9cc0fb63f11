import Mathlib.Algebra.Order.Archimedean.Basic
import Rlaas.Algorithm.RefillProperties

/-! Token bucket calls whose clock may run backwards while the entries of the bucket live.
A call at an earlier reading gains no tokens, but it moves the refill time back. -/

set_option autoImplicit false

namespace Rlaas.Algorithm

open Go Model Store Effect Allowance

namespace TokenBucket

section Bound

variable {policy : Policy} {key : String} {store : MemoryStore} {rate : ℚ}
  {calls : List InstantCall} {earliest latest : Int}

/-- While nothing expires, any readings will do. -/
theorem reliable_of_within {cfg : AlgorithmConfig} (positive : 0 < earliest)
    (lasting : latest - earliest ≤ 2 * hour)
    (within : ∀ call ∈ calls, earliest ≤ call.now.nanos ∧ call.now.nanos ≤ latest) :
    Reliable cfg key rate (fun instant => earliest ≤ instant ∧ instant ≤ latest) calls := by
  have kept : ∀ (fill : Fill) (instant : Int), earliest ≤ fill.stamp ∧ fill.stamp ≤ latest →
      instant ≤ latest → (bucket key).expired instant fill ≠ true := by
    intro fill instant stamped reached gone
    have passed : fill.stamp + 2 * hour < instant :=
      (Bucket.expired_iff _ (by omega)).mp gone
    omega
  exact {
    within
    nonzero := fun instant reached => by omega
    steady := List.pairwise_of_forall_mem_list fun earlier here _ _ fill stamped gone =>
      absurd gone (kept fill _ stamped (within earlier here).2)
    fair := fun fill instant stamped reached gone => absurd gone (kept fill _ stamped reached.2) }

/-- What a run admits is paid by a full bucket and the forward moves of the clock. -/
theorem cost_le_climb (refill : refillRate .exact policy.algorithm = .fin rate)
    (absent : (bucket key).Holds store.cells none) (positive : 0 < earliest)
    (lasting : latest - earliest ≤ 2 * hour)
    (within : ∀ call ∈ calls, earliest ≤ call.now.nanos ∧ call.now.nanos ≤ latest) :
    (((admissionsOf policy "token_available"
        (visits .exact .tokenBucket policy key calls store)).map Admission.cost).sum : Int) ≤
      (capacity policy.algorithm : ℚ) +
        rate * (climb (calls.map fun call => (call.now.nanos : ℚ)) / 1000000000) +
        ((admissionsOf policy "token_available"
          (visits .exact .tokenBucket policy key calls store)).length : ℚ) / 2000 := by
  obtain ⟨fillings, listed, funded, _⟩ := run_funded policy key store rate _ calls refill
    absent (reliable_of_within positive lasting within)
  have pays := refillRate_pos refill
  have climbed : climb ((fillings.map Filling.draw).map Draw.time) ≤
      climb (calls.map fun call => (call.now.nanos : ℚ)) / 1000000000 := by
    have part := (admissionsOf_times .exact .tokenBucket policy key "token_available" calls
      store).map fun nanos : Int => (nanos : ℚ) / 1000000000
    rw [← listed] at part
    rw [draw_times, ← climb_div _ (by norm_num)]
    refine climb_sublist ?_
    simpa only [List.map_map, Function.comp_def] using part
  rw [← listed]
  cases fillings with
  | nil =>
      have full : (0 : ℚ) < capacity policy.algorithm := by exact_mod_cast capacity_pos _
      have moved := climb_nonneg (calls.map fun call => (call.now.nanos : ℚ))
      rw [List.map_nil, List.map_nil, List.sum_nil, Int.cast_zero, List.length_nil, Nat.cast_zero]
      positivity
  | cons first rest =>
      have paid := funded.total_le (by simp)
      have refilled := mul_le_mul_of_nonneg_left climbed pays.le
      rw [total_draw, List.length_map] at paid
      rw [List.length_map]
      linarith

end Bound

section Spending

/-- A bucket that refills `weight` tokens a nanosecond. -/
def rapid (capacity weight : Int) : Policy :=
  { algorithm := { burst := capacity, refillRate := .fin (1000000000 * weight) } }

/-- Calls that take all that the clock has brought since the call before, or a single token. -/
def spend (weight : Int) : Int → List Time → List InstantCall
  | _, [] => []
  | last, now :: rest =>
      ⟨{ quantity := weight * max 0 (now.nanos - last) }, now⟩ :: spend weight now.nanos rest

theorem spend_instants (weight last : Int) (instants : List Time) :
    (spend weight last instants).map InstantCall.now = instants := by
  induction instants generalizing last with
  | nil => rfl
  | cons now rest ih => exact congrArg (now :: ·) (ih now.nanos)

variable {full weight : Int} {key : String} {store : MemoryStore}

theorem rapid_refill (pays : 0 < weight) :
    refillRate .exact (rapid full weight).algorithm = .fin (1000000000 * weight) := by
  have positive : ¬((1000000000 * weight : ℚ) ≤ 0) := by
    have cast : (0 : ℚ) < weight := by exact_mod_cast pays
    linarith
  exact if_neg (by simpa [rapid] using positive)

theorem rapid_capacity (room : 0 < full) : capacity (rapid full weight).algorithm = full :=
  if_neg (not_le.mpr room)

theorem visit_of_whole {policy : Policy} {rate : ℚ} {call : InstantCall} {last : Option Fill}
    {left : Int} (refill : refillRate .exact policy.algorithm = .fin rate)
    (holds : (bucket key).Holds store.cells last)
    (found : tokensFound policy.algorithm rate key call.now.nanos last =
      ((cost call.req policy.algorithm + left : Int) : ℚ)) (nonneg : 0 ≤ left) :
    answered "token_available" (visit .exact .tokenBucket policy key call store).result = true ∧
      (bucket key).Holds (visit .exact .tokenBucket policy key call store).after.cells
        (some ⟨1000 * left, call.now.nanos⟩) := by
  have planned : (algorithm policy key).step call last = _ := plan_exact refill
  change _ = if tokensFound policy.algorithm rate key call.now.nanos last < _ then _ else
    BucketStep.take (GoFloat.roundHalfAway
      ((tokensFound policy.algorithm rate key call.now.nanos last - _) * 1000)) _ at planned
  have enough : ¬tokensFound policy.algorithm rate key call.now.nanos last <
      cost call.req policy.algorithm := by
    rw [found, Int.cast_lt]
    omega
  have whole : (tokensFound policy.algorithm rate key call.now.nanos last -
      cost call.req policy.algorithm) * 1000 = ((1000 * left : Int) : ℚ) := by
    rw [found]
    push_cast
    ring
  rw [if_neg enough, whole, GoFloat.roundHalfAway_intCast] at planned
  rcases @BucketAlgorithm.visit_cases (algorithm policy key) call store last holds with
    ⟨_, _, refused, _⟩ | ⟨level, decision, taken, result, kept⟩
  · rw [planned] at refused
    cases refused
  · rw [planned] at taken
    cases taken
    refine ⟨?_, kept⟩
    change answered _ ((algorithm policy key).visit call store).result = true
    rw [result]
    rfl

theorem cost_rapid (quantity : Int) :
    cost { quantity } (rapid full weight).algorithm = if 0 < quantity then quantity else 1 := rfl

variable (key) in
/-- What the clock brings to a bucket that it cannot fill. -/
theorem tokensFound_rapid {level last now : Int} (used : 0 < last) (lasting : now ≤ last + 2 * hour)
    (filled : 0 < full) (room : level + weight * max 0 (now - last) ≤ full) :
    tokensFound (rapid full weight).algorithm (1000000000 * weight) key now
        (some ⟨1000 * level, last⟩) = ((level + weight * max 0 (now - last) : Int) : ℚ) := by
  have fresh : (bucket key).expired now ⟨1000 * level, last⟩ = false := by
    rw [← Bool.not_eq_true, Bucket.expired_iff _ used]
    exact not_lt.mpr lasting
  have brought : elapsed last now * (1000000000 * weight) =
      ((weight * max 0 (now - last) : Int) : ℚ) := by
    rw [elapsed, ← zero_div (1000000000 : ℚ), max_div_div_right (by norm_num)]
    push_cast
    ring
  have sum : ((1000 * level : Int) : ℚ) / 1000 + elapsed last now * (1000000000 * weight) =
      ((level + weight * max 0 (now - last) : Int) : ℚ) := by
    rw [brought]
    push_cast
    ring
  rw [tokensFound, (bucket key).found_of_unexpired fresh]
  change tokens _ _ now (1000 * level) last = _
  rw [tokens, if_neg used.ne', rapid_capacity filled, sum]
  exact min_eq_right (by exact_mod_cast room)

/-- A call that spends what the clock has brought leaves the bucket as it was; one that finds
nothing new takes a token out of it. -/
theorem visit_spend {level last : Int} {now : Time} (pays : 0 < weight) (used : 0 < last)
    (lasting : now.nanos ≤ last + 2 * hour)
    (room : level + weight * max 0 (now.nanos - last) ≤ full) (some : 0 < level)
    (holds : (bucket key).Holds store.cells (.some ⟨1000 * level, last⟩)) :
    ∃ left, level - 1 ≤ left ∧ left ≤ level ∧
      answered "token_available" (visit .exact .tokenBucket (rapid full weight) key
        ⟨{ quantity := weight * max 0 (now.nanos - last) }, now⟩ store).result = true ∧
      (bucket key).Holds (visit .exact .tokenBucket (rapid full weight) key
        ⟨{ quantity := weight * max 0 (now.nanos - last) }, now⟩ store).after.cells
          (.some ⟨1000 * left, now.nanos⟩) := by
  have nonneg : 0 ≤ weight * max 0 (now.nanos - last) :=
    mul_nonneg pays.le (le_max_left _ _)
  have found := tokensFound_rapid key used lasting (by omega) room
  by_cases moved : 0 < weight * max 0 (now.nanos - last)
  · refine ⟨level, by omega, le_rfl, visit_of_whole (rapid_refill pays) holds ?_ some.le⟩
    rw [found, cost_rapid, if_pos moved, add_comm]
  · refine ⟨level - 1, le_rfl, by omega, visit_of_whole (rapid_refill pays) holds ?_ (by omega)⟩
    rw [found, cost_rapid, if_neg moved]
    congr 1
    omega

/-- Spent in this way, the bucket pays for every forward move of the clock. -/
theorem visits_spend {earliest latest level last : Int} {instants : List Time} (pays : 0 < weight)
    (positive : 0 < earliest) (lasting : latest - earliest ≤ 2 * hour)
    (begun : earliest ≤ last) (reached : last ≤ latest)
    (within : ∀ now ∈ instants, earliest ≤ now.nanos ∧ now.nanos ≤ latest)
    (room : level + weight * (latest - earliest) ≤ full) (enough : instants.length ≤ level)
    (holds : (bucket key).Holds store.cells (some ⟨1000 * level, last⟩)) :
    (admissionsOf (rapid full weight) "token_available" (visits .exact .tokenBucket
        (rapid full weight) key (spend weight last instants) store)).length = instants.length ∧
      (weight : ℚ) * climb ((last : ℚ) :: instants.map fun now => (now.nanos : ℚ)) ≤
        (((admissionsOf (rapid full weight) "token_available" (visits .exact .tokenBucket
          (rapid full weight) key (spend weight last instants) store)).map
            Admission.cost).sum : Int) := by
  induction instants generalizing level last store with
  | nil => exact ⟨rfl, by simp [climb, spend, visits, serial, admissionsOf]⟩
  | cons now rest ih =>
      obtain ⟨⟨later, earlier⟩, others⟩ := List.forall_mem_cons.mp within
      have moved : max 0 (now.nanos - last) ≤ latest - earliest := max_le (by omega) (by omega)
      have brought := mul_le_mul_of_nonneg_left moved pays.le
      rw [List.length_cons, Nat.cast_succ] at enough
      have fits : level + weight * max 0 (now.nanos - last) ≤ full := by linarith
      obtain ⟨left, above, below, taken, kept⟩ := visit_spend pays (by omega)
        (by omega : now.nanos ≤ last + 2 * hour) fits (by omega) holds
      obtain ⟨count, paid⟩ := ih later earlier others (by omega) (by omega) kept
      rw [spend, admissionsOf_visits_cons taken]
      refine ⟨congrArg (· + 1) count, ?_⟩
      have costs : weight * max 0 (now.nanos - last) ≤
          cost { quantity := weight * max 0 (now.nanos - last) } (rapid full weight).algorithm := by
        rw [cost_rapid]
        split
        · exact le_rfl
        · omega
      have cast : (weight : ℚ) * max 0 ((now.nanos : ℚ) - last) ≤
          cost { quantity := weight * max 0 (now.nanos - last) } (rapid full weight).algorithm := by
        exact_mod_cast costs
      rw [List.map_cons, List.map_cons, List.sum_cons, climb, mul_add, Int.cast_add]
      exact add_le_add cast paid

/-- The first call takes all but a token for each of the others. -/
def spendFull (weight span : Int) (first : Time) (rest : List Time) : List InstantCall :=
  ⟨{ quantity := weight * span + 1 }, first⟩ :: spend weight first.nanos rest

theorem spendFull_instants (weight span : Int) (first : Time) (rest : List Time) :
    (spendFull weight span first rest).map InstantCall.now = first :: rest :=
  congrArg (first :: ·) (spend_instants weight first.nanos rest)

theorem visits_spendFull {earliest latest : Int} {first : Time} {rest : List Time}
    (pays : 0 < weight) (positive : 0 < earliest) (ordered : earliest ≤ latest)
    (lasting : latest - earliest ≤ 2 * hour)
    (within : ∀ now ∈ first :: rest, earliest ≤ now.nanos ∧ now.nanos ≤ latest)
    (filled : full = weight * (latest - earliest) + 1 + rest.length)
    (absent : (bucket key).Holds store.cells none) :
    (admissionsOf (rapid full weight) "token_available" (visits .exact .tokenBucket
        (rapid full weight) key (spendFull weight (latest - earliest) first rest) store)).length =
        rest.length + 1 ∧
      ((weight * (latest - earliest) + 1 : Int) : ℚ) +
          weight * climb ((first :: rest).map fun now => (now.nanos : ℚ)) ≤
        (((admissionsOf (rapid full weight) "token_available" (visits .exact .tokenBucket
          (rapid full weight) key (spendFull weight (latest - earliest) first rest) store)).map
            Admission.cost).sum : Int) := by
  have spanned : 0 ≤ weight * (latest - earliest) := mul_nonneg pays.le (by omega)
  obtain ⟨⟨later, earlier⟩, others⟩ := List.forall_mem_cons.mp within
  have costs : cost { quantity := weight * (latest - earliest) + 1 }
      (rapid full weight).algorithm = weight * (latest - earliest) + 1 :=
    (cost_rapid _).trans (if_pos (by omega))
  have found : tokensFound (rapid full weight).algorithm (1000000000 * weight) key first.nanos
      none = ((cost { quantity := weight * (latest - earliest) + 1 }
        (rapid full weight).algorithm + rest.length : Int) : ℚ) := by
    rw [tokensFound_none, rapid_capacity (by omega), costs, filled]
  have nonneg : (0 : Int) ≤ rest.length := by omega
  have room : rest.length + weight * (latest - earliest) ≤ full := by omega
  obtain ⟨taken, kept⟩ := @visit_of_whole key store _ _
    ⟨{ quantity := weight * (latest - earliest) + 1 }, first⟩ _ _ (rapid_refill pays) absent found
    nonneg
  obtain ⟨count, paid⟩ := visits_spend pays positive lasting later earlier others room le_rfl kept
  rw [spendFull, admissionsOf_visits_cons taken]
  refine ⟨congrArg (· + 1) count, ?_⟩
  rw [List.map_cons, List.map_cons, List.sum_cons, costs, Int.cast_add (weight * _ + 1)]
  exact add_le_add_right paid _

end Spending

/-- The faster a bucket refills, the less the single tokens and the rounding count. -/
theorem exists_weight {gap : ℚ} (positive : 0 < gap) (count : Nat) :
    ∃ weight : Int, 0 < weight ∧ 2 * (count : ℚ) + 1 < weight * gap := by
  obtain ⟨weight, heavy⟩ := exists_nat_gt ((2 * (count : ℚ) + 1) / gap)
  have some : (0 : ℚ) ≤ (2 * (count : ℚ) + 1) / gap := by positivity
  refine ⟨weight, by exact_mod_cast some.trans_lt heavy, ?_⟩
  exact_mod_cast (div_lt_iff₀ positive).mp heavy

/-- With a clock that may run backwards, a run is paid by a full bucket and the time between the
earliest and the latest reading, whatever the policy and the requests, just if the forward moves
of the clock add up to no more than that time. -/
theorem skewed_cost_le_iff (instants : List Time) (earliest latest : Int) (positive : 0 < earliest)
    (ordered : earliest ≤ latest) (lasting : latest - earliest ≤ 2 * hour)
    (within : ∀ now ∈ instants, earliest ≤ now.nanos ∧ now.nanos ≤ latest) :
    (∀ (policy : Policy) (key : String) (store : MemoryStore) (rate : ℚ)
        (calls : List InstantCall), refillRate .exact policy.algorithm = .fin rate →
        (bucket key).Holds store.cells none → calls.map InstantCall.now = instants →
        (((admissionsOf policy "token_available"
            (visits .exact .tokenBucket policy key calls store)).map Admission.cost).sum : Int) ≤
          (capacity policy.algorithm : ℚ) +
            rate * (((latest - earliest : Int) : ℚ) / 1000000000) +
            ((admissionsOf policy "token_available"
              (visits .exact .tokenBucket policy key calls store)).length : ℚ) / 2000) ↔
      climb (instants.map fun now => (now.nanos : ℚ)) ≤ ((latest - earliest : Int) : ℚ) := by
  constructor
  · intro paid
    cases instants with
    | nil =>
        have spanned : (0 : ℚ) ≤ ((latest - earliest : Int) : ℚ) := by
          exact_mod_cast sub_nonneg.mpr ordered
        exact spanned
    | cons first rest =>
        by_contra again
        obtain ⟨weight, pays, outweighs⟩ := exists_weight (sub_pos.mpr (not_le.mp again)) rest.length
        obtain ⟨count, spent⟩ := visits_spendFull pays positive ordered lasting within rfl
          (⟨rfl, rfl⟩ : (bucket "k").Holds (MemoryStore.newSharded 1).cells none)
        have bounded := paid (rapid (weight * (latest - earliest) + 1 + rest.length) weight) "k"
          (.newSharded 1) _ _ (rapid_refill pays) ⟨rfl, rfl⟩
          (spendFull_instants weight (latest - earliest) first rest)
        have span : 0 ≤ weight * (latest - earliest) := mul_nonneg pays.le (by omega)
        have refilled : (1000000000 * weight : ℚ) * (((latest - earliest : Int) : ℚ) / 1000000000) =
            ((weight * (latest - earliest) : Int) : ℚ) := by
          push_cast
          ring
        have overspent := spent.trans bounded
        rw [count, refilled, rapid_capacity (by omega)] at overspent
        push_cast at overspent outweighs
        linarith
  · intro once policy key store rate calls refill absent timed
    subst timed
    have pays := refillRate_pos refill
    have paid := cost_le_climb refill absent positive lasting
      fun call member => within call.now (List.mem_map_of_mem member)
    rw [List.map_map] at once
    change climb (calls.map fun call => (call.now.nanos : ℚ)) ≤ _ at once
    refine paid.trans ?_
    gcongr

/-- Eleven seconds, one and eleven again: the clock runs forward for ten seconds once. -/
theorem skewed_cost_le_of_once :
    (((admissionsOf tenTokens "token_available" (visits .exact .tokenBucket tenTokens "k"
        [callAt 11 5, callAt 1 5, callAt 11 10] (.newSharded 1))).map Admission.cost).sum : Int) ≤
      (capacity tenTokens.algorithm : ℚ) +
        1 * (((11 * second - 1 * second : Int) : ℚ) / 1000000000) +
        ((admissionsOf tenTokens "token_available" (visits .exact .tokenBucket tenTokens "k"
          [callAt 11 5, callAt 1 5, callAt 11 10] (.newSharded 1))).length : ℚ) / 2000 :=
  (skewed_cost_le_iff [⟨11 * second, utc⟩, ⟨1 * second, utc⟩, ⟨11 * second, utc⟩] (1 * second)
    (11 * second) (by decide) (by decide) (by decide) (by decide)).mpr (by decide +kernel)
    tenTokens "k" (.newSharded 1) 1 [callAt 11 5, callAt 1 5, callAt 11 10] (by decide +kernel)
    ⟨rfl, rfl⟩ rfl

/-- The ten seconds that follow the call at the earlier reading are refilled a second time. -/
theorem tokenBucket_refills_twice :
    admissionsOf tenTokens "token_available" (visits .exact .tokenBucket tenTokens "k"
        [callAt 1 10, callAt 11 9, callAt 1 1, callAt 11 10] (.newSharded 1)) =
      [⟨1 * second, 10⟩, ⟨11 * second, 9⟩, ⟨1 * second, 1⟩, ⟨11 * second, 10⟩] ∧
    ¬((10 + 9 + 1 + 10 : ℚ) ≤ (capacity tenTokens.algorithm : ℚ) +
      1 * (((11 * second - 1 * second : Int) : ℚ) / 1000000000) + 4 / 2000) :=
  ⟨by decide +kernel, by decide +kernel⟩

end TokenBucket

end Rlaas.Algorithm
