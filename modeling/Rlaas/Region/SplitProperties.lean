import Rlaas.Region.AllocatorProperties
import Rlaas.Lib.Apportion

/-! The split of a global limit: how far the code's arithmetic computes the proportional
one, on what it depends, and what the limits say about usage above the global limit. -/

set_option autoImplicit false

namespace Rlaas.Region

open Go Function

variable {weights : List RegionWeight}

def weightSum (weights : List RegionWeight) : Int := (weights.map (·.weight)).sum

/-- The valid weights in the order of their regions. -/
def inOrder (weights : List RegionWeight) : List RegionWeight :=
  Sorting.stable.slice (weights.filter RegionWeight.valid)

variable (globalLimit : Int)

/-- Every weight but the last gets its share rounded down. -/
def leading (weights : List RegionWeight) : List Allocation :=
  weights.dropLast.map fun w => ⟨w.region, globalLimit * w.weight / weightSum weights⟩

/-- The proportional split over weights in order: the last one takes the rest. -/
def proportional (weights : List RegionWeight) : List Allocation :=
  leading globalLimit weights ++ weights.getLast?.toList.map fun w =>
    ⟨w.region, globalLimit - granted (leading globalLimit weights)⟩

section Order

variable {weights other : List RegionWeight}

/-- Regions that are pairwise distinct have one order only. -/
theorem slice_eq_of_perm (first second : Sorting) (same : weights.Perm other)
    (distinct : (weights.map (·.region)).Nodup) : first.slice weights = second.slice other := by
  refine List.Perm.eq_of_pairwise ?_ (first.ordered weights) (second.ordered other)
    (((first.perm weights).trans same).trans (second.perm other).symm)
  intro left right inLeft inRight notAfter notBefore
  refine List.inj_on_of_nodup_map distinct ((first.perm weights).mem_iff.mp inLeft)
    (same.mem_iff.mpr ((second.perm other).mem_iff.mp inRight)) ?_
  exact le_antisymm (not_lt.mp notAfter) (not_lt.mp notBefore)

theorem inOrder_perm (weights : List RegionWeight) :
    (inOrder weights).Perm (weights.filter RegionWeight.valid) := Sorting.stable.perm _

theorem weightSum_inOrder (weights : List RegionWeight) :
    weightSum (inOrder weights) = weightSum (weights.filter RegionWeight.valid) :=
  ((inOrder_perm weights).map _).sum_eq

theorem weight_pos_of_inOrder {w : RegionWeight} (member : w ∈ inOrder weights) : 0 < w.weight :=
  RegionWeight.weight_pos (List.mem_filter.mp ((inOrder_perm weights).mem_iff.mp member)).2

end Order

/-- The limit of a weight that is not the last. -/
def share (A : Arith) (globalLimit total weight : Int) : Int :=
  let limit := A.wrap ((A.wrap (globalLimit * weight)).tdiv total)
  if limit < 0 then 0 else limit

/-- Values from zero up to a bound are kept. -/
def SumsUpTo (A : Arith) (bound : Int) : Prop := ∀ n, 0 ≤ n → n ≤ bound → A.wrap n = n

/-- Sums come out the same when they are wrapped at every step and when they are wrapped once. -/
structure WrapsOnce (A : Arith) : Prop where
  zero : A.wrap 0 = 0
  add : ∀ m n, A.wrap (A.wrap m + n) = A.wrap (m + n)
  sub : ∀ m n, A.wrap (m - A.wrap n) = A.wrap (m - n)

section Sums

variable {A : Arith} {bound : Int}

theorem sumsUpTo_exact (bound : Int) : SumsUpTo .exact bound := fun _ _ _ => rfl

theorem sumsUpTo_machine (range : bound < 2 ^ 63) : SumsUpTo .machine bound := by
  intro n nonneg below
  exact wrapInt64_of_isInt64 ⟨by omega, by omega⟩

theorem wrapsOnce_exact : WrapsOnce .exact := ⟨rfl, fun _ _ => rfl, fun _ _ => rfl⟩

theorem wrapsOnce_machine : WrapsOnce .machine where
  zero := by decide
  add m n := by
    simp only [machine_wrap, wrapInt64]
    omega
  sub m n := by
    simp only [machine_wrap, wrapInt64]
    omega

theorem foldl_wrap (once : WrapsOnce A) (values : List Int) (start : Int) :
    values.foldl (fun sum n => A.wrap (sum + n)) (A.wrap start) = A.wrap (start + values.sum) := by
  induction values generalizing start with
  | nil => simp
  | cons n values ih =>
      rw [List.foldl_cons, once.add, ih, List.sum_cons, Int.add_assoc]

theorem foldl_wrap_zero (once : WrapsOnce A) (values : List Int) :
    values.foldl (fun sum n => A.wrap (sum + n)) 0 = A.wrap values.sum := by
  have folded := foldl_wrap once values 0
  rwa [once.zero, Int.zero_add] at folded

theorem granted_nonneg {allocations : List Allocation} (nonneg : ∀ a ∈ allocations, 0 ≤ a.limit) :
    0 ≤ granted allocations := by
  refine List.sum_nonneg fun n member => ?_
  obtain ⟨a, inside, rfl⟩ := List.mem_map.mp member
  exact nonneg a inside

theorem totalWeight_eq (once : WrapsOnce A) (valid : List RegionWeight) :
    totalWeight A valid = A.wrap (weightSum valid) := by
  rw [weightSum, ← foldl_wrap_zero once, List.foldl_map]
  rfl

/-- The shares do not depend on what was assigned before; only the last limit does. -/
theorem assign_concat (A : Arith) (globalLimit total assigned : Int) (init : List RegionWeight)
    (last : RegionWeight) :
    assign A globalLimit total assigned (init ++ [last]) =
      init.map (fun w => ⟨w.region, share A globalLimit total w.weight⟩) ++
        [⟨last.region,
          let rest := A.wrap (globalLimit - (init.map fun w =>
            share A globalLimit total w.weight).foldl (fun sum n => A.wrap (sum + n)) assigned)
          if rest < 0 then 0 else rest⟩] := by
  induction init generalizing assigned with
  | nil => rfl
  | cons w init ih =>
      have shared : assign A globalLimit total assigned (w :: (init ++ [last])) =
          ⟨w.region, share A globalLimit total w.weight⟩ ::
            assign A globalLimit total (A.wrap (assigned + share A globalLimit total w.weight))
              (init ++ [last]) := by
        cases init <;> rfl
      rw [List.cons_append, shared, ih]
      rfl

end Sums

section Shares

variable {globalLimit total weight : Int}

theorem share_eq_max (A : Arith) :
    share A globalLimit total weight =
      max (A.wrap ((A.wrap (globalLimit * weight)).tdiv total)) 0 := by
  simp only [share]
  split_ifs with negative
  · exact (max_eq_right negative.le).symm
  · exact (max_eq_left (not_lt.mp negative)).symm

theorem share_exact (limit : 0 < globalLimit) (positive : 0 < total) (usable : 0 < weight) :
    share .exact globalLimit total weight = globalLimit * weight / total := by
  have product : 0 ≤ globalLimit * weight := Int.mul_nonneg limit.le usable.le
  rw [share_eq_max, exact_wrap, exact_wrap, Int.tdiv_eq_ediv_of_nonneg product]
  exact max_eq_left (Int.ediv_nonneg product positive.le)

/-- What is left of a quotient of the machine after negative values are cut off. -/
theorem max_wrap_tdiv {n : Int} (range : IsInt64 n) (positive : 0 < total) :
    max (wrapInt64 (n.tdiv total)) 0 = max n 0 / total := by
  unfold IsInt64 at range
  rcases Int.le_total 0 n with nonneg | nonpos
  · have low := Int.ediv_nonneg nonneg positive.le
    have high := Int.ediv_le_self total nonneg
    rw [Int.tdiv_eq_ediv_of_nonneg nonneg, wrapInt64_of_isInt64 ⟨by omega, by omega⟩,
      max_eq_left low, max_eq_left nonneg]
  · have low := Int.ediv_nonneg (Int.neg_nonneg_of_nonpos nonpos) positive.le
    have high := Int.ediv_le_self total (Int.neg_nonneg_of_nonpos nonpos)
    have negated : n.tdiv total = -(-n / total) := by
      rw [← Int.tdiv_eq_ediv_of_nonneg (Int.neg_nonneg_of_nonpos nonpos), Int.neg_tdiv, Int.neg_neg]
    rw [negated, wrapInt64_of_isInt64 ⟨by omega, by omega⟩, max_eq_right (by omega),
      max_eq_right nonpos, Int.zero_ediv]

/-- With a total that fits, the machine's share is the rounded one just if the product
fits. A product that wraps around loses at least twice the total. -/
theorem share_machine_iff (limit : 0 < globalLimit) (usable : 0 < weight) (below : weight ≤ total)
    (fits : total < 2 ^ 63) :
    share .machine globalLimit total weight = globalLimit * weight / total ↔
      globalLimit * weight < 2 ^ 63 := by
  have positive : 0 < total := lt_of_lt_of_le usable below
  have product : 0 < globalLimit * weight := Int.mul_pos limit usable
  rw [share_eq_max, machine_wrap, machine_wrap, max_wrap_tdiv (isInt64_wrapInt64 _) positive]
  constructor
  · intro same
    by_contra large
    have lost : max (wrapInt64 (globalLimit * weight)) 0 ≤ globalLimit * weight - total := by
      have wrapped := wrapInt64_le_sub (not_lt.mp large)
      omega
    have smaller := Int.ediv_le_ediv positive lost
    rw [Int.sub_ediv_of_dvd _ (dvd_refl total), Int.ediv_self positive.ne', same] at smaller
    omega
  · intro small
    rw [wrapInt64_of_isInt64 ⟨by omega, small⟩, max_eq_left product.le]

/-- A product that fits is below a total weight that does not: its rounded share is zero. -/
theorem share_wrapped_iff {divisor : Int} (product : 0 < globalLimit * weight)
    (small : globalLimit * weight < 2 ^ 63) (wraps : 2 ^ 63 ≤ total) (nonzero : divisor ≠ 0) :
    share .machine globalLimit divisor weight = globalLimit * weight / total ↔
      divisor < 0 ∨ globalLimit * weight < divisor := by
  have zero : globalLimit * weight / total = 0 := Int.ediv_eq_zero_of_lt product.le (by omega)
  rw [zero, share_eq_max, machine_wrap, machine_wrap, wrapInt64_of_isInt64 ⟨by omega, small⟩]
  rcases Int.lt_or_gt_of_ne nonzero with negative | positive
  · have low := Int.ediv_nonneg product.le (Int.neg_nonneg_of_nonpos negative.le)
    have high := Int.ediv_le_self (-divisor) product.le
    have negated : (globalLimit * weight).tdiv divisor = -(globalLimit * weight / -divisor) := by
      rw [← Int.tdiv_eq_ediv_of_nonneg product.le, Int.tdiv_neg, Int.neg_neg]
    rw [negated, wrapInt64_of_isInt64 ⟨by omega, by omega⟩]
    exact iff_of_true (max_eq_right (by omega)) (.inl negative)
  · rw [max_wrap_tdiv ⟨by omega, small⟩ positive, max_eq_left product.le]
    constructor
    · intro none
      have below := Int.lt_mul_ediv_self_add (x := globalLimit * weight) positive
      rw [none] at below
      exact .inr (by omega)
    · intro cut
      exact Int.ediv_eq_zero_of_lt product.le (by omega)

end Shares

section Proportional

variable {A : Arith} {globalLimit : Int} {init : List RegionWeight} {last : RegionWeight}

theorem leading_concat (init : List RegionWeight) (last : RegionWeight) :
    leading globalLimit (init ++ [last]) = init.map fun w =>
      ⟨w.region, globalLimit * w.weight / weightSum (init ++ [last])⟩ := by
  rw [leading, List.dropLast_concat]

theorem granted_leading (init : List RegionWeight) (last : RegionWeight) :
    granted (leading globalLimit (init ++ [last])) =
      (Apportion.floors globalLimit (weightSum (init ++ [last])) (init.map (·.weight))).sum := by
  rw [leading_concat, granted, List.map_map, Apportion.floors, List.map_map]
  rfl

theorem proportional_concat (init : List RegionWeight) (last : RegionWeight) :
    proportional globalLimit (init ++ [last]) = leading globalLimit (init ++ [last]) ++
      [⟨last.region, globalLimit - granted (leading globalLimit (init ++ [last]))⟩] := by
  simp [proportional]

theorem weightSum_concat (init : List RegionWeight) (last : RegionWeight) :
    (init.map (·.weight)).sum + last.weight = weightSum (init ++ [last]) := by
  simp [weightSum]

theorem weightSum_pos (some : weights ≠ []) (usable : ∀ w ∈ weights, 0 < w.weight) :
    0 < weightSum weights := by
  refine List.sum_pos _ ?_ (by simpa using some)
  intro weight member
  obtain ⟨w, inside, rfl⟩ := List.mem_map.mp member
  exact usable w inside

theorem weight_le_weightSum (usable : ∀ w ∈ weights, 0 < w.weight) {w : RegionWeight}
    (member : w ∈ weights) : w.weight ≤ weightSum weights := by
  refine List.single_le_sum ?_ _ (List.mem_map_of_mem member)
  intro weight inside
  obtain ⟨other, listed, rfl⟩ := List.mem_map.mp inside
  exact (usable other listed).le

theorem rest_nonneg (limit : 0 < globalLimit) (usable : ∀ w ∈ init ++ [last], 0 < w.weight) :
    0 ≤ globalLimit - granted (leading globalLimit (init ++ [last])) := by
  have positive : 0 < weightSum (init ++ [last]) := weightSum_pos (by simp) usable
  have heavy : 0 < last.weight := usable last (by simp)
  obtain ⟨low, _⟩ := Apportion.rest_bounds globalLimit positive (weightSum_concat init last)
  rw [granted_leading]
  exact (Int.ediv_nonneg (Int.mul_nonneg limit.le heavy.le) positive.le).trans low

theorem leading_nonneg (limit : 0 < globalLimit) (usable : ∀ w ∈ init ++ [last], 0 < w.weight) :
    ∀ a ∈ leading globalLimit (init ++ [last]), 0 ≤ a.limit := by
  intro a member
  rw [leading_concat] at member
  obtain ⟨w, inside, rfl⟩ := List.mem_map.mp member
  have heavy : 0 < w.weight := usable w (List.mem_append_left _ inside)
  exact Int.ediv_nonneg (Int.mul_nonneg limit.le heavy.le) (weightSum_pos (by simp) usable).le

/-- The loop computes the proportional split just if every share but the last is the
rounded one, whatever total it divides by: the remainder then needs no more than the global
limit. -/
theorem assign_eq_proportional_iff (once : WrapsOnce A) (sums : SumsUpTo A globalLimit)
    (limit : 0 < globalLimit) (usable : ∀ w ∈ init ++ [last], 0 < w.weight) (total : Int) :
    assign A globalLimit total 0 (init ++ [last]) =
        proportional globalLimit (init ++ [last]) ↔
      ∀ w ∈ init, share A globalLimit total w.weight =
        globalLimit * w.weight / weightSum (init ++ [last]) := by
  have nonneg := leading_nonneg limit usable
  have rest := rest_nonneg limit usable
  have spent := granted_nonneg nonneg
  rw [assign_concat, proportional_concat]
  constructor
  · intro same w member
    rw [leading_concat] at same
    have shares := (List.append_inj' same rfl).1
    exact congrArg Allocation.limit (List.map_inj_left.mp shares w member)
  · intro shares
    have same : init.map (fun w => (⟨w.region, share A globalLimit total w.weight⟩ : Allocation)) =
        leading globalLimit (init ++ [last]) := by
      rw [leading_concat]
      exact List.map_congr_left fun w member => by rw [shares w member]
    have sum : (init.map fun w => share A globalLimit total w.weight).sum =
        granted (leading globalLimit (init ++ [last])) := by
      rw [← same, granted, List.map_map]
      rfl
    have kept : A.wrap (globalLimit - granted (leading globalLimit (init ++ [last]))) =
        globalLimit - granted (leading globalLimit (init ++ [last])) := sums _ rest (by omega)
    rw [same, foldl_wrap_zero once, once.sub, sum, kept]
    simp only [not_lt.mpr rest, if_false]

theorem proportional_nonneg (limit : 0 < globalLimit)
    (usable : ∀ w ∈ init ++ [last], 0 < w.weight) :
    ∀ a ∈ proportional globalLimit (init ++ [last]), 0 ≤ a.limit := by
  intro a member
  rw [proportional_concat] at member
  rcases List.mem_append.mp member with before | final
  · exact leading_nonneg limit usable a before
  · rw [List.mem_singleton.mp final]
    exact rest_nonneg limit usable

theorem granted_proportional (init : List RegionWeight) (last : RegionWeight) :
    granted (proportional globalLimit (init ++ [last])) = globalLimit := by
  rw [proportional_concat, granted, List.map_append, List.sum_append]
  simp [granted]

end Proportional

section Allocate

variable {A : Arith} {sorting : Sorting} {globalLimit : Int} {weights : List RegionWeight}

/-- With distinct regions the sorting does not show. -/
theorem allocate_eq_assign (once : WrapsOnce A) (limit : 0 < globalLimit)
    (distinct : ((weights.filter RegionWeight.valid).map (·.region)).Nodup) :
    allocateGlobalLimit A sorting globalLimit weights =
      if A.wrap (weightSum (inOrder weights)) = 0 then []
      else assign A globalLimit (A.wrap (weightSum (inOrder weights))) 0 (inOrder weights) := by
  have total : totalWeight A (weights.filter RegionWeight.valid) =
      A.wrap (weightSum (inOrder weights)) := by
    rw [totalWeight_eq once, weightSum_inOrder]
  have sorted : sorting.slice (weights.filter RegionWeight.valid) = inOrder weights :=
    slice_eq_of_perm sorting .stable (.refl _) distinct
  by_cases none : weights = []
  · have empty : inOrder weights = [] := by
      rw [none]
      exact List.perm_nil.mp (inOrder_perm [])
    rw [allocateGlobalLimit, if_pos (.inr none), empty]
    exact (if_pos once.zero).symm
  · rw [allocateGlobalLimit, if_neg (not_or.mpr ⟨not_le.mpr limit, none⟩)]
    simp only [total, sorted]

/-- The valid weights in order: none, or some with a last one. -/
theorem inOrder_cases (weights : List RegionWeight) :
    inOrder weights = [] ∨ ∃ init last, inOrder weights = init ++ [last] ∧
      ∀ w ∈ init ++ [last], 0 < w.weight := by
  rcases List.eq_nil_or_concat (inOrder weights) with none | ⟨init, last, shape⟩
  · exact .inl none
  · rw [List.concat_eq_append] at shape
    exact .inr ⟨init, last, shape, fun w member => weight_pos_of_inOrder (shape ▸ member)⟩

theorem inOrder_concat (usable : ∃ w ∈ weights, w.valid = true) :
    ∃ init last, inOrder weights = init ++ [last] ∧ ∀ w ∈ init ++ [last], 0 < w.weight := by
  obtain ⟨w, member, valid⟩ := usable
  have inside : w ∈ inOrder weights :=
    (inOrder_perm weights).mem_iff.mpr (List.mem_filter.mpr ⟨member, valid⟩)
  exact (inOrder_cases weights).resolve_left (List.ne_nil_of_mem inside)

theorem allocate_machine_eq_iff (sorting : Sorting) (limit : 0 < globalLimit)
    (range : IsInt64 globalLimit) (usable : ∃ w ∈ weights, w.valid = true)
    (distinct : (weights.map (·.region)).Nodup) :
    allocateGlobalLimit .machine sorting globalLimit weights =
        proportional globalLimit (inOrder weights) ↔
      wrapInt64 (weightSum (inOrder weights)) ≠ 0 ∧ ∀ w ∈ (inOrder weights).dropLast,
        share .machine globalLimit (wrapInt64 (weightSum (inOrder weights))) w.weight =
          globalLimit * w.weight / weightSum (inOrder weights) := by
  obtain ⟨init, last, shape, heavy⟩ := inOrder_concat usable
  rw [allocate_eq_assign wrapsOnce_machine limit (distinct.sublist (List.filter_sublist.map _)),
    machine_wrap, shape, List.dropLast_concat]
  split_ifs with vanishes
  · simp [vanishes, proportional_concat]
  · rw [assign_eq_proportional_iff wrapsOnce_machine (sumsUpTo_machine range.2) limit heavy]
    exact (and_iff_right vanishes).symm

/-- In `int64` the split is the proportional one just if every share but the last survives.
For a total weight that fits these are the shares whose product with the limit fits. If only
the total weight leaves the range, they are the ones that the wrapped total cuts to zero. -/
theorem allocate_machine_iff (sorting : Sorting) (limit : 0 < globalLimit)
    (range : IsInt64 globalLimit) (usable : ∃ w ∈ weights, w.valid = true)
    (distinct : (weights.map (·.region)).Nodup) :
    (weightSum (inOrder weights) < 2 ^ 63 →
      (allocateGlobalLimit .machine sorting globalLimit weights =
          proportional globalLimit (inOrder weights) ↔
        ∀ w ∈ (inOrder weights).dropLast, globalLimit * w.weight < 2 ^ 63)) ∧
    (2 ^ 63 ≤ weightSum (inOrder weights) →
      (∀ w ∈ (inOrder weights).dropLast, globalLimit * w.weight < 2 ^ 63) →
      (allocateGlobalLimit .machine sorting globalLimit weights =
          proportional globalLimit (inOrder weights) ↔
        wrapInt64 (weightSum (inOrder weights)) ≠ 0 ∧ ∀ w ∈ (inOrder weights).dropLast,
          wrapInt64 (weightSum (inOrder weights)) < 0 ∨
            globalLimit * w.weight < wrapInt64 (weightSum (inOrder weights)))) ∧
    (∀ a ∈ proportional globalLimit (inOrder weights), 0 ≤ a.limit) ∧
    granted (proportional globalLimit (inOrder weights)) = globalLimit := by
  rw [allocate_machine_eq_iff sorting limit range usable distinct]
  obtain ⟨init, last, shape, heavy⟩ := inOrder_concat usable
  have positive : 0 < weightSum (init ++ [last]) := weightSum_pos (by simp) heavy
  rw [shape, List.dropLast_concat]
  refine ⟨fun fits => ?_, fun wraps small => ?_, proportional_nonneg limit heavy,
    granted_proportional ..⟩
  · rw [wrapInt64_of_isInt64 ⟨by omega, fits⟩, and_iff_right positive.ne']
    refine forall₂_congr fun w member => ?_
    have inside : w ∈ init ++ [last] := List.mem_append_left _ member
    exact share_machine_iff limit (heavy w inside) (weight_le_weightSum heavy inside) fits
  · refine and_congr_right fun nonzero => forall₂_congr fun w member => ?_
    have inside : w ∈ init ++ [last] := List.mem_append_left _ member
    exact share_wrapped_iff (Int.mul_pos limit (heavy w inside)) (small w member) wraps nonzero

private def twoRegions : List RegionWeight := [⟨"us", 1⟩, ⟨"eu", 3⟩]

theorem allocate_machine_of_small :
    allocateGlobalLimit .machine .stable 10 twoRegions = [⟨"eu", 7⟩, ⟨"us", 3⟩] := by
  have proper := (allocate_machine_iff .stable (by decide : (0 : Int) < 10) (by decide)
    (⟨⟨"us", 1⟩, by decide, by decide⟩ : ∃ w ∈ twoRegions, w.valid = true)
    (by decide)).1 (by decide) |>.mpr (by decide)
  rw [proper]
  decide

/-- Ten times `2 ^ 61` wraps around to `2 ^ 62`, so that the two regions swap their limits.
Four weights of `2 ^ 62` add up to zero, and no region gets a limit. -/
theorem allocate_machine_wraps :
    allocateGlobalLimit .machine .stable 10 [⟨"eu", 2 ^ 61⟩, ⟨"us", 1⟩] = [⟨"eu", 1⟩, ⟨"us", 9⟩] ∧
      proportional 10 (inOrder [⟨"eu", 2 ^ 61⟩, ⟨"us", 1⟩]) = [⟨"eu", 9⟩, ⟨"us", 1⟩] ∧
      allocateGlobalLimit .machine .stable 10
        [⟨"ap", 2 ^ 62⟩, ⟨"eu", 2 ^ 62⟩, ⟨"sa", 2 ^ 62⟩, ⟨"us", 2 ^ 62⟩] = [] := by
  decide

theorem allocate_exact_eq (sorting : Sorting) (limit : 0 < globalLimit)
    (distinct : ((weights.filter RegionWeight.valid).map (·.region)).Nodup) :
    allocateGlobalLimit .exact sorting globalLimit weights =
      proportional globalLimit (inOrder weights) := by
  rw [allocate_eq_assign wrapsOnce_exact limit distinct, exact_wrap]
  rcases inOrder_cases weights with none | ⟨init, last, shape, heavy⟩
  · rw [none]
    rfl
  · have positive : 0 < weightSum (init ++ [last]) := weightSum_pos (by simp) heavy
    rw [shape, if_neg positive.ne',
      assign_eq_proportional_iff wrapsOnce_exact (sumsUpTo_exact globalLimit) limit heavy]
    intro w member
    exact share_exact limit positive (heavy w (List.mem_append_left _ member))

/-- The limit of a weight against its rounded share, among a number of regions. -/
structure NearShare (globalLimit total : Int) (regions : Nat) (w : RegionWeight) (a : Allocation) :
    Prop where
  region : a.region = w.region
  low : globalLimit * w.weight / total ≤ a.limit
  high : a.limit ≤ globalLimit * w.weight / total + (regions - 1)

theorem proportional_near (init : List RegionWeight) (last : RegionWeight)
    (usable : ∀ w ∈ init ++ [last], 0 < w.weight) :
    List.Forall₂ (NearShare globalLimit (weightSum (init ++ [last])) (init ++ [last]).length)
      (init ++ [last]) (proportional globalLimit (init ++ [last])) := by
  have positive : 0 < weightSum (init ++ [last]) := weightSum_pos (by simp) usable
  obtain ⟨low, high⟩ := Apportion.rest_bounds globalLimit positive (weightSum_concat init last)
  rw [List.length_map] at high
  rw [proportional_concat, granted_leading, leading_concat]
  refine List.rel_append ?_ (.cons ⟨rfl, low, ?_⟩ .nil)
  · rw [List.forall₂_map_right_iff, List.forall₂_same]
    exact fun w _ => ⟨rfl, le_rfl, by simp⟩
  · simpa using high

theorem inOrder_of_perm {invalid other : List RegionWeight}
    (useless : ∀ w ∈ invalid, w.valid = false) (same : other.Perm (weights ++ invalid))
    (distinct : ((weights.filter RegionWeight.valid).map (·.region)).Nodup) :
    inOrder other = inOrder weights := by
  have dropped : invalid.filter RegionWeight.valid = [] :=
    List.filter_eq_nil_iff.mpr fun w member => by simp [useless w member]
  have kept : (other.filter RegionWeight.valid).Perm (weights.filter RegionWeight.valid) := by
    simpa [dropped] using same.filter RegionWeight.valid
  exact (slice_eq_of_perm .stable .stable kept.symm distinct).symm

/-- The split depends neither on the order of the list, nor on the sorting, nor on entries
that are not valid, and no region is further from its share than there are other regions. -/
theorem allocate_fair (sorting : Sorting) (limit : 0 < globalLimit)
    (distinct : ((weights.filter RegionWeight.valid).map (·.region)).Nodup) :
    (∀ (resorting : Sorting) (invalid other : List RegionWeight),
      (∀ w ∈ invalid, w.valid = false) → other.Perm (weights ++ invalid) →
      allocateGlobalLimit .exact resorting globalLimit other =
        allocateGlobalLimit .exact sorting globalLimit weights) ∧
    List.Forall₂ (NearShare globalLimit (weightSum (weights.filter RegionWeight.valid))
        (weights.filter RegionWeight.valid).length)
      (inOrder weights) (allocateGlobalLimit .exact sorting globalLimit weights) := by
  constructor
  · intro resorting invalid other useless same
    have ordered := inOrder_of_perm useless same distinct
    have distinct' : ((other.filter RegionWeight.valid).map (·.region)).Nodup := by
      rw [← ((inOrder_perm other).map _).nodup_iff, ordered, ((inOrder_perm weights).map _).nodup_iff]
      exact distinct
    rw [allocate_exact_eq resorting limit distinct', allocate_exact_eq sorting limit distinct, ordered]
  · rw [allocate_exact_eq sorting limit distinct, ← weightSum_inOrder,
      ← (inOrder_perm weights).length_eq]
    rcases inOrder_cases weights with none | ⟨init, last, shape, heavy⟩
    · rw [none]
      exact .nil
    · rw [shape]
      exact proportional_near init last heavy

theorem allocate_fair_of_two :
    allocateGlobalLimit .exact .stable 10 [⟨"", 5⟩, ⟨"eu", 3⟩, ⟨"us", 1⟩] =
      allocateGlobalLimit .exact .stable 10 twoRegions :=
  (allocate_fair .stable (by decide) (by decide)).1 .stable [⟨"", 5⟩] _ (by decide) (by decide)

end Allocate

def RegionMap.total (m : RegionMap) : Int := (m.entries.map (·.2)).sum

section Overflow

variable {allocation : List Allocation}

theorem limits_snoc (allocation : List Allocation) (a : Allocation) :
    limits (allocation ++ [a]) = update (limits allocation) a.region a.limit := by
  simp [limits]

theorem limits_nonneg (nonneg : ∀ a ∈ allocation, 0 ≤ a.limit) (region : String) :
    0 ≤ limits allocation region := by
  induction allocation using List.reverseRecOn with
  | nil => exact le_rfl
  | append_singleton allocation a ih =>
      rw [limits_snoc, update_apply]
      split_ifs
      · exact nonneg a (by simp)
      · exact ih fun other member => nonneg other (List.mem_append_left _ member)

theorem sum_update_le {regions : List String} (distinct : regions.Nodup) (values : String → Int)
    {region : String} (floor : 0 ≤ values region) {n : Int} (nonneg : 0 ≤ n) :
    (regions.map (update values region n)).sum ≤ (regions.map values).sum + n := by
  induction regions with
  | nil => simpa using nonneg
  | cons first rest ih =>
      obtain ⟨fresh, others⟩ := List.nodup_cons.mp distinct
      rw [List.map_cons, List.map_cons, List.sum_cons, List.sum_cons]
      by_cases same : first = region
      · subst same
        have kept : rest.map (update values first n) = rest.map values :=
          List.map_congr_left fun other member =>
            update_of_ne (ne_of_mem_of_not_mem member fresh) _ _
        rw [kept, update_self]
        omega
      · have later := ih others
        rw [update_of_ne same]
        omega

/-- However many regions are asked for, the limits read for them come to no more than what
was granted. -/
theorem sum_limits_le (nonneg : ∀ a ∈ allocation, 0 ≤ a.limit) {regions : List String}
    (distinct : regions.Nodup) :
    (regions.map (limits allocation)).sum ≤ granted allocation := by
  induction allocation using List.reverseRecOn with
  | nil => simp [limits, granted]
  | append_singleton allocation a ih =>
      have earlier : ∀ other ∈ allocation, 0 ≤ other.limit := fun other member =>
        nonneg other (List.mem_append_left _ member)
      calc (regions.map (limits (allocation ++ [a]))).sum
          ≤ (regions.map (limits allocation)).sum + a.limit := by
            rw [limits_snoc]
            exact sum_update_le distinct _ (limits_nonneg earlier _) (nonneg a (by simp))
        _ ≤ granted allocation + a.limit := Int.add_le_add_right (ih earlier) _
        _ = granted (allocation ++ [a]) := by simp [granted]

theorem sum_excess_le (entries : List (String × Int)) (limit : String → Int) :
    (entries.map (·.2)).sum - (entries.map fun entry => limit entry.1).sum ≤
      (((entries.map fun entry => (entry.1, entry.2 - limit entry.1)).filter fun entry =>
        0 < entry.2).map (·.2)).sum := by
  induction entries with
  | nil => simp
  | cons entry rest ih =>
      simp only [List.map_cons, List.sum_cons, List.filter_cons]
      split_ifs with exceeds
      · simp only [List.map_cons, List.sum_cons]
        omega
      · simp only [decide_eq_true_eq] at exceeds
        omega

theorem total_regionalOverflow {usage : RegionMap} (some : allocation ≠ [])
    (nonneg : ∀ a ∈ allocation, 0 ≤ a.limit) :
    usage.total - granted allocation ≤ (regionalOverflow .exact usage allocation).total := by
  have covered := sum_limits_le nonneg usage.distinct
  rw [List.map_map] at covered
  by_cases idle : usage.entries = []
  · have spent := granted_nonneg nonneg
    simp only [RegionMap.total, regionalOverflow, idle, true_or, if_true, RegionMap.empty,
      List.map_nil, List.sum_nil]
    omega
  · have excess := sum_excess_le usage.entries (limits allocation)
    rw [regionalOverflow, if_neg (not_or.mpr ⟨idle, some⟩)]
    simp only [RegionMap.total, exact_wrap]
    exact le_trans (Int.sub_le_sub_left covered _) excess

theorem regionalOverflow_pos (A : Arith) (usage : RegionMap) (allocation : List Allocation) :
    ∀ entry ∈ (regionalOverflow A usage allocation).entries, 0 < entry.2 := by
  intro entry member
  unfold regionalOverflow at member
  split_ifs at member
  · cases member
  · exact of_decide_eq_true (List.mem_filter.mp member).2

/-- Usage above the global limit shows: the overflows make up for it, so that some region is
reported. Usage of a region without a limit counts as a whole. -/
theorem overflow_reported (sorting : Sorting) {globalLimit : Int} (limit : 0 < globalLimit)
    (usable : ∃ w ∈ weights, w.valid = true) (distinct : (weights.map (·.region)).Nodup)
    (usage : RegionMap) :
    let overflow := regionalOverflow .exact usage
      (allocateGlobalLimit .exact sorting globalLimit weights)
    usage.total - globalLimit ≤ overflow.total ∧
      (globalLimit < usage.total → ∃ entry ∈ overflow.entries, 0 < entry.2) := by
  intro overflow
  obtain ⟨init, last, shape, heavy⟩ := inOrder_concat usable
  have split : allocateGlobalLimit .exact sorting globalLimit weights =
      proportional globalLimit (init ++ [last]) := by
    rw [allocate_exact_eq sorting limit (distinct.sublist (List.filter_sublist.map _)), shape]
  have total : usage.total - globalLimit ≤ overflow.total := by
    have some : proportional globalLimit (init ++ [last]) ≠ [] := by
      rw [proportional_concat]
      simp
    have bound : usage.total - granted (proportional globalLimit (init ++ [last])) ≤ _ :=
      total_regionalOverflow some (proportional_nonneg limit heavy)
    rwa [granted_proportional, ← split] at bound
  refine ⟨total, fun exceeds => ?_⟩
  have reported : overflow.entries ≠ [] := by
    intro none
    have nothing : overflow.total = 0 := by
      rw [RegionMap.total, none]
      rfl
    omega
  obtain ⟨entry, member⟩ := List.exists_mem_of_ne_nil _ reported
  exact ⟨entry, member, regionalOverflow_pos _ _ _ entry member⟩

/-- Most of the usage is in a region that has no limit. -/
theorem overflow_reported_of_stray :
    ∃ entry ∈ (regionalOverflow .exact ⟨[("us", 2), ("ap", 9)], by decide⟩
      (allocateGlobalLimit .exact .stable 10 twoRegions)).entries, 0 < entry.2 :=
  (overflow_reported .stable (by decide) ⟨⟨"us", 1⟩, by decide, by decide⟩ (by decide)
    ⟨[("us", 2), ("ap", 9)], by decide⟩).2 (by decide)

end Overflow

end Rlaas.Region
