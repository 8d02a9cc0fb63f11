import Rlaas.Lib.Buckets
import Rlaas.Lib.Selection
import Rlaas.Metrics.Histogram
import Mathlib.Algebra.Order.Floor.Ring

/-! What the histogram says about the values it has seen: the counts of its buckets are
those of the observed values, and a percentile is the least bound that covers enough of
them. -/

set_option autoImplicit false

namespace Rlaas.Metrics

open Go Buckets

variable {given : List GoFloat} {values : List Nat}

/-- A histogram after some values, observed one after another. -/
def observed (A : Arith) (bounds : List GoFloat) (values : List Nat) : Histogram :=
  values.foldl (fun (h : Histogram) (n : Nat) => h.observe A (GoFloat.ofInt A n))
    (newHistogram bounds)

/-- Whether a value is at most a bound. -/
def within (n : Nat) (b : GoFloat) : Bool := GoFloat.le (.fin n) b

/-- The number of values that are at most a bound. -/
def atMost (values : List Nat) (b : GoFloat) : Nat := values.countP (within · b)

theorem nested_within {bounds : List GoFloat}
    (ordered : bounds.Pairwise fun x y => float64Less y x = false) : Nested within bounds := by
  refine ordered.imp fun {b c} later n inside => ?_
  have below : float64Rank (.fin n) ≤ float64Rank b := (le_iff_rank n b).mp inside
  exact (le_iff_rank n c).mpr (below.trans ((float64Less_eq_false_iff b c).mp later))

/-- The histogram of some values. -/
structure Represents (given : List GoFloat) (values : List Nat) (h : Histogram) : Prop where
  bounds : h.bounds = float64s given
  counts : h.counts = tally within (float64s given) values
  sum : h.sum = (values.sum : Nat)
  total : h.total = values.length

theorem Represents.observe {h : Histogram} (represents : Represents given values h) (n : Nat) :
    Represents given (values ++ [n]) (h.observe .exact (GoFloat.ofInt .exact n)) where
  bounds := represents.bounds
  counts := by
    have place : searchFloat64s h.bounds (.fin n) = slot within (float64s given) n := by
      rw [represents.bounds]
      exact searchFloat64s_eq_findIdx (float64s_ordered given)
    rw [tally_concat, ← represents.counts, ← place]
    rfl
  sum := by
    have truncated : truncate (n : ℚ) = n := truncate_intCast n
    simp [Histogram.observe, represents.sum, truncated]
  total := by simp [Histogram.observe, represents.total]

theorem represents_observed (given : List GoFloat) (values : List Nat) :
    Represents given values (observed .exact given values) := by
  induction values using List.reverseRecOn with
  | nil => exact ⟨rfl, (tally_nil _).symm, rfl, rfl⟩
  | append_singleton values n ih =>
      rw [observed, List.foldl_append]
      exact ih.observe n

theorem bucketLines_eq (cum : Int) {bounds : List GoFloat} {counts : List Int}
    (sized : counts.length = bounds.length + 1) :
    bucketLines .exact cum bounds counts =
      ((cumulate cum bounds counts).map fun entry => bucketLine (formatBound entry.1) entry.2,
        cum + counts.sum) := by
  induction bounds generalizing cum counts with
  | nil =>
      obtain ⟨count, rfl⟩ := List.length_eq_one_iff.mp sized
      simp [bucketLines, cumulate]
  | cons b bounds ih =>
      cases counts with
      | nil => cases sized
      | cons count counts =>
          rw [bucketLines, exact_wrap, ih _ (Nat.succ.inj sized)]
          simp [cumulate, Int.add_assoc]

theorem reaching_eq (target cum : Int) (bounds : List GoFloat) (counts : List Int) :
    Histogram.reaching .exact target cum bounds counts =
      ((cumulate cum bounds counts).find? fun entry => target ≤ entry.2).map (·.1) := by
  induction bounds generalizing cum counts with
  | nil => rfl
  | cons b bounds ih =>
      cases counts with
      | nil => rfl
      | cons count counts =>
          rw [Histogram.reaching, cumulate, List.find?_cons, exact_wrap, ih]
          by_cases reached : target ≤ cum + count
          · simp [reached]
          · simp [reached]

theorem Represents.latencyLines {h : Histogram} (represents : Represents given values h) :
    latencyLines .exact h = latencyHead ++
      ((float64s given).map fun b => bucketLine (formatBound b) (atMost values b)) ++
      [bucketLine "+Inf" values.length, sumLine (values.sum : Nat), countLine values.length] := by
  have covered := cumulate_tally (nested_within (float64s_ordered given)) 0 values
  have written := bucketLines_eq 0 h.sized
  rw [represents.bounds, represents.counts, covered, sum_tally, List.map_map] at written
  simp only [Metrics.latencyLines, represents.bounds, represents.counts, represents.sum,
    represents.total, written, Int.zero_add]
  rfl

/-- How many values a percentile has to cover. -/
def required (count : Nat) (p : ℚ) : Int := ⌈(count : ℚ) * p / 100⌉

theorem required_mono (count : Nat) {p q : ℚ} (raised : p ≤ q) :
    required count p ≤ required count q := by
  refine Int.ceil_le_ceil ?_
  gcongr

/-- The least bound, in the order they are sorted by, that covers enough of the values, or
the largest one if none does. -/
structure IsPercentile (given : List GoFloat) (values : List Nat) (p : ℚ) (b : GoFloat) : Prop where
  bound : b ∈ given
  least : (∃ c ∈ given, required values.length p ≤ atMost values c) →
    required values.length p ≤ atMost values b ∧
      ∀ c ∈ given, required values.length p ≤ atMost values c → float64Less c b = false
  largest : (∀ c ∈ given, atMost values c < required values.length p) →
    ∀ c ∈ given, float64Less b c = false

theorem IsPercentile.mono {p q : ℚ} {b c : GoFloat} (lower : IsPercentile given values p b)
    (upper : IsPercentile given values q c) (raised : p ≤ q) :
    float64Less c b = false := by
  have more := required_mono values.length raised
  by_cases reached : ∃ d ∈ given, required values.length q ≤ atMost values d
  · have covers := more.trans (upper.least reached).1
    exact (lower.least ⟨c, upper.bound, covers⟩).2 c upper.bound covers
  · push Not at reached
    exact upper.largest reached b lower.bound

section Percentile

variable {given : List GoFloat} {values : List Nat} {h : Histogram}

theorem Represents.percentile (represents : Represents given values h) (some : values ≠ [])
    (p : ℚ) :
    h.percentile .exact (.fin p) =
      ((float64s given).find? fun b => required values.length p ≤ atMost values b).getD
        ((float64s given).getLast?.getD (.fin 0)) := by
  have counted : h.total ≠ 0 := by
    rw [represents.total]
    simpa using some
  have target : Arith.exact.toInt (((GoFloat.ofInt .exact h.total).mul .exact (.fin p)).div .exact
      (.fin 100)).ceil = required values.length p := by
    rw [GoFloat.ofInt_exact, GoFloat.mul_exact, GoFloat.div_exact _ (by norm_num), GoFloat.ceil_fin,
      exact_toInt, truncate_intCast, represents.total]
    rfl
  have covered := cumulate_tally (nested_within (float64s_ordered given)) 0 values
  rw [Histogram.percentile, if_neg counted]
  simp only [target]
  rw [reaching_eq, represents.bounds, represents.counts, covered, List.find?_map, Option.map_map]
  have same : (fun entry : GoFloat × Int => decide (required values.length p ≤ entry.2)) ∘
      (fun b => (b, (0 : Int) + values.countP (within · b))) =
        fun b => decide (required values.length p ≤ atMost values b) := by
    funext b
    rw [Function.comp_apply, Int.zero_add]
    rfl
  rw [same]
  cases (float64s given).find? fun b => decide (required values.length p ≤ atMost values b) with
  | none => rfl
  | some b => rfl

theorem float64Less_self (x : GoFloat) : float64Less x x = false :=
  (float64Less_eq_false_iff x x).mpr le_rfl

theorem isPercentile_find (some : given ≠ []) (p : ℚ) :
    IsPercentile given values p
      (((float64s given).find? fun b => required values.length p ≤ atMost values b).getD
        ((float64s given).getLast?.getD (.fin 0))) := by
  have ordered := float64s_ordered given
  have listed : ∀ c, c ∈ float64s given ↔ c ∈ given := fun c => (float64s_perm given).mem_iff
  cases found : (float64s given).find? fun b => required values.length p ≤ atMost values b with
  | some b =>
      have member : b ∈ given := (listed b).mp (List.mem_of_find?_eq_some found)
      have covers : required values.length p ≤ atMost values b := by
        simpa using List.find?_some found
      have before := Selection.find_least float64Less_self ordered found
      refine ⟨member, fun _ => ⟨covers, fun c inside reached => ?_⟩, fun none => ?_⟩
      · exact before c ((listed c).mpr inside) (decide_eq_true reached)
      · exact absurd covers (not_le.mpr (none b member))
  | none =>
      have missed : ∀ c ∈ given, atMost values c < required values.length p := by
        intro c inside
        simpa using List.find?_eq_none.mp found c ((listed c).mpr inside)
      have filled : float64s given ≠ [] := by
        intro empty
        exact some (List.nil_perm.mp (empty ▸ float64s_perm given))
      have ended := List.getLast?_eq_some_getLast filled
      have after := Selection.last_greatest float64Less_self ordered ended
      rw [Option.getD_none, ended, Option.getD_some]
      refine ⟨(listed _).mp (List.getLast_mem filled), fun reached => ?_, fun _ c inside => ?_⟩
      · obtain ⟨c, inside, covers⟩ := reached
        exact absurd covers (not_le.mpr (missed c inside))
      · exact after c ((listed c).mpr inside)

end Percentile

/-- What is printed for the values observed so far, and what their percentiles are. -/
theorem histogram_reports (given : List GoFloat) (values : List Nat) :
    latencyLines .exact (observed .exact given values) =
        latencyHead ++
        ((float64s given).map fun b => bucketLine (formatBound b) (atMost values b)) ++
        [bucketLine "+Inf" values.length, sumLine (values.sum : Nat), countLine values.length] ∧
      (values ≠ [] → given ≠ [] →
        (∀ p : ℚ, 0 < p → p ≤ 100 →
          IsPercentile given values p ((observed .exact given values).percentile .exact (.fin p))) ∧
        ∀ p q : ℚ, 0 < p → p ≤ q → q ≤ 100 →
          float64Less ((observed .exact given values).percentile .exact (.fin q))
            ((observed .exact given values).percentile .exact (.fin p)) = false) := by
  have represents := represents_observed given values
  refine ⟨represents.latencyLines, fun some bounded => ?_⟩
  have each : ∀ p : ℚ, IsPercentile given values p
      ((observed .exact given values).percentile .exact (.fin p)) := by
    intro p
    rw [represents.percentile some]
    exact isPercentile_find bounded p
  exact ⟨fun p _ _ => each p, fun p q _ raised _ => (each p).mono (each q) raised⟩

/-- Bounds out of order and one of them twice, and a value equal to a bound. -/
theorem histogram_reports_of_repeated :
    IsPercentile [.fin 100, .fin 50, .fin 50] [50, 70, 200] 50
      ((observed .exact [.fin 100, .fin 50, .fin 50] [50, 70, 200]).percentile .exact (.fin 50)) :=
  ((histogram_reports [.fin 100, .fin 50, .fin 50] [50, 70, 200]).2 (by decide) (by decide)).1 50
    (by norm_num) (by norm_num)

end Rlaas.Metrics
