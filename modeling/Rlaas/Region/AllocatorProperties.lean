import Rlaas.Region.Allocator
import Rlaas.Lib.Steps
import Mathlib.Algebra.BigOperators.Group.List.Basic
import Mathlib.Data.List.Sort
import Mathlib.Data.String.Basic
import Mathlib.Tactic.Linarith

/-! The allocations follow the health of the regions: after every call they are what
rebalancing computes from the set of unhealthy regions. They add up to the global limit
as long as no set of healthy regions is left without a usable weight. -/

set_option autoImplicit false

namespace Rlaas.Region

open Go Effect Function

/-- The sorting that keeps the order of two weights of one region. -/
def Sorting.stable : Sorting where
  slice := List.insertionSort fun left right => left.region ≤ right.region
  perm := List.perm_insertionSort _
  ordered weights :=
    (List.pairwise_insertionSort _ weights).imp fun le => not_lt_of_ge le

def granted (allocations : List Allocation) : Int := (allocations.map (·.limit)).sum

section Split

variable {A : Arith} {sorting : Sorting} {globalLimit total assigned : Int}
  {weights : List RegionWeight}

theorem assign_regions :
    (assign A globalLimit total assigned weights).map (·.region) = weights.map (·.region) := by
  induction weights generalizing assigned with
  | nil => rfl
  | cons w rest ih => simp only [assign, List.map_cons, ih]

theorem share_bounds {weight : Int} (positive : 0 < total) (limit : 0 ≤ globalLimit)
    (usable : 0 < weight) :
    0 ≤ (globalLimit * weight).tdiv total ∧
      (globalLimit * weight).tdiv total * total ≤ globalLimit * weight := by
  have product : 0 ≤ globalLimit * weight := Int.mul_nonneg limit usable.le
  rw [Int.tdiv_eq_ediv_of_nonneg product]
  exact ⟨Int.ediv_nonneg product positive.le, Int.ediv_mul_le _ positive.ne'⟩

/-- The shares before the last never run ahead of the weights they are for, so that the
last region takes a remainder that is not negative. -/
theorem assign_sum (positive : 0 < total) (limit : 0 ≤ globalLimit) (some : weights ≠ [])
    (usable : ∀ w ∈ weights, 0 < w.weight)
    (ahead : assigned * total + globalLimit * (weights.map (·.weight)).sum ≤
      globalLimit * total) :
    assigned + granted (assign .exact globalLimit total assigned weights) = globalLimit := by
  induction weights generalizing assigned with
  | nil => exact absurd rfl some
  | cons w rest ih =>
      have heavy := usable w List.mem_cons_self
      cases rest with
      | nil =>
          have bounded : assigned ≤ globalLimit := by
            have alone : 0 ≤ globalLimit * w.weight := Int.mul_nonneg limit heavy.le
            simp only [List.map_cons, List.map_nil, List.sum_cons, List.sum_nil, add_zero]
              at ahead
            exact le_of_mul_le_mul_right (by linarith) positive
          have remainder : ¬ globalLimit - assigned < 0 := by omega
          simp [granted, assign, remainder]
      | cons next rest =>
          obtain ⟨nonneg, floor⟩ := share_bounds positive limit heavy
          have unfolded : assign .exact globalLimit total assigned (w :: next :: rest) =
              ⟨w.region, (globalLimit * w.weight).tdiv total⟩ ::
                assign .exact globalLimit total
                  (assigned + (globalLimit * w.weight).tdiv total) (next :: rest) := by
            rw [assign]
            simp only [exact_wrap, not_lt.mpr nonneg, if_false]
          have later := ih (List.cons_ne_nil _ _)
            (fun other member => usable other (List.mem_cons_of_mem _ member))
            (show (assigned + (globalLimit * w.weight).tdiv total) * total + _ ≤ _ by
              rw [List.map_cons, List.sum_cons] at ahead
              linarith)
          rw [granted] at later ⊢
          rw [unfolded, List.map_cons, List.sum_cons, ← Int.add_assoc]
          exact later

theorem totalWeight_exact (valid : List RegionWeight) :
    totalWeight .exact valid = (valid.map (·.weight)).sum := by
  have folded : ∀ start : Int, valid.foldl (fun total w => total + w.weight) start =
      start + (valid.map (·.weight)).sum := by
    induction valid with
    | nil => simp
    | cons w rest ih =>
        intro start
        rw [List.foldl_cons, ih, List.map_cons, List.sum_cons, Int.add_assoc]
  exact (folded 0).trans (Int.zero_add _)

theorem RegionWeight.weight_pos {w : RegionWeight} (usable : w.valid = true) : 0 < w.weight := by
  simp only [valid, Bool.not_eq_true', Bool.or_eq_false_iff, decide_eq_false_iff_not] at usable
  exact not_le.mp usable.2

theorem allocate_region {a : Allocation}
    (member : a ∈ allocateGlobalLimit A sorting globalLimit weights) :
    ∃ w ∈ weights, w.region = a.region := by
  unfold allocateGlobalLimit at member
  split at member
  · cases member
  · simp only at member
    split at member
    · cases member
    · have listed : a.region ∈ (sorting.slice (weights.filter RegionWeight.valid)).map (·.region) := by
        rw [← assign_regions]
        exact List.mem_map_of_mem member
      obtain ⟨w, sorted, same⟩ := List.mem_map.mp listed
      exact ⟨w, (List.mem_filter.mp ((sorting.perm _).mem_iff.mp sorted)).1, same⟩

/-- The whole limit is handed out if there is a usable weight, and nothing if not. -/
theorem allocate_granted (limit : 0 < globalLimit) :
    granted (allocateGlobalLimit .exact sorting globalLimit weights) =
      if weights.any RegionWeight.valid then globalLimit else 0 := by
  unfold allocateGlobalLimit
  cases usable : weights.filter RegionWeight.valid with
  | nil =>
      have none : weights.any RegionWeight.valid = false := by
        rw [List.any_eq_false]
        exact List.filter_eq_nil_iff.mp usable
      simp [none, granted, totalWeight]
  | cons w rest =>
      have heavy : ∀ w ∈ weights.filter RegionWeight.valid, 0 < w.weight := fun w member =>
        RegionWeight.weight_pos (List.mem_filter.mp member).2
      obtain ⟨member, valid⟩ := List.mem_filter.mp (usable ▸ List.mem_cons_self :
        w ∈ weights.filter RegionWeight.valid)
      have present : weights.any RegionWeight.valid = true := List.any_eq_true.mpr ⟨w, member, valid⟩
      have positive : 0 < totalWeight .exact (w :: rest) := by
        rw [totalWeight_exact, ← usable]
        refine List.sum_pos _ ?_ (by simp [usable])
        intro weight listed
        obtain ⟨w, inside, rfl⟩ := List.mem_map.mp listed
        exact heavy w inside
      have sorted := sorting.perm (w :: rest)
      have kept : sorting.slice (w :: rest) ≠ [] := fun empty =>
        List.cons_ne_nil w rest (List.nil_perm.mp (empty ▸ sorted))
      have whole := assign_sum positive limit.le kept
        (fun w inside => heavy w (usable ▸ sorted.mem_iff.mp inside))
        (show 0 * _ + _ ≤ _ by
          rw [(sorted.map (·.weight)).sum_eq, totalWeight_exact, Int.zero_mul, Int.zero_add])
      rw [if_neg (not_or.mpr ⟨not_le.mpr limit, List.ne_nil_of_mem member⟩)]
      simp only [positive.ne', if_false, present, if_true]
      exact (Int.zero_add _).symm.trans whole

end Split

namespace DynamicAllocator

def unhealthy (da : DynamicAllocator) (region : String) : Bool :=
  match da.status region with
  | some s => s.health == .unhealthy
  | none => false

/-- What rebalancing computes from a set of unhealthy regions. -/
def shares (A : Arith) (sorting : Sorting) (globalLimit : Int) (weights : List RegionWeight)
    (unhealthy : String → Bool) : List Allocation :=
  if weights.filter (fun w => !unhealthy w.region) = [] then
    allocateGlobalLimit A sorting globalLimit weights
  else allocateGlobalLimit A sorting globalLimit (weights.filter fun w => !unhealthy w.region)

/-- Every configured region has a status. -/
def Known (da : DynamicAllocator) : Prop :=
  ∀ w ∈ da.weights, (da.status w.region).isSome = true

variable {A : Arith} {sorting : Sorting} {da : DynamicAllocator} {s : RegionStatus}
  {region : String}

theorem region_of_status (found : da.status region = some s) : s.region = region :=
  Keyed.key_of_find RegionStatus.region found

theorem status_setStatus :
    (da.setStatus s).status = update da.status s.region (some s) := by
  funext other
  rw [update_apply]
  split_ifs with same
  · rw [same]
    exact Keyed.find_upsert_self _ _ _
  · exact Keyed.find_upsert_other _ (Ne.symm same) _

theorem unhealthy_setStatus :
    (da.setStatus s).unhealthy =
      update da.unhealthy s.region (s.health == .unhealthy) := by
  funext other
  rw [unhealthy, status_setStatus, update_apply, update_apply]
  split_ifs <;> rfl

theorem Known.setStatus (known : da.Known) : (da.setStatus s).Known := by
  intro w member
  rw [status_setStatus, update_apply]
  split_ifs
  · rfl
  · exact known w member

theorem rebalanced_allocations (known : da.Known) :
    (da.rebalanceLocked A sorting).allocations =
      shares A sorting da.globalLimit da.weights da.unhealthy := by
  have same : da.healthy = da.weights.filter fun w => !da.unhealthy w.region := by
    refine List.filter_congr fun w member => ?_
    obtain ⟨s, found⟩ := Option.isSome_iff_exists.mp (known w member)
    simp only [unhealthy, found]
    rfl
  simp only [rebalanceLocked, same]
  rfl

/-- The state between two calls: the allocations are those of the unhealthy regions. -/
structure Settled (A : Arith) (sorting : Sorting) (globalLimit : Int)
    (weights : List RegionWeight) (da : DynamicAllocator) : Prop where
  limit : da.globalLimit = globalLimit
  regions : da.weights = weights
  known : da.Known
  balanced : da.allocations = shares A sorting globalLimit weights da.unhealthy

variable {globalLimit : Int} {weights : List RegionWeight}

theorem settled_of_rebalanced (limit : da.globalLimit = globalLimit)
    (regions : da.weights = weights) (known : da.Known) :
    (da.rebalanceLocked A sorting).Settled A sorting globalLimit weights where
  limit := limit
  regions := regions
  known := known
  balanced := by
    rw [rebalanced_allocations known, limit, regions]
    rfl

section

variable (settled : da.Settled A sorting globalLimit weights)

include settled

theorem Settled.rebalanceLocked :
    da.rebalanceLocked A sorting = da := by
  have same : (da.rebalanceLocked A sorting).allocations = da.allocations := by
    rw [rebalanced_allocations settled.known, settled.limit, settled.regions, settled.balanced]
  calc da.rebalanceLocked A sorting
      = { da with allocations := (da.rebalanceLocked A sorting).allocations } := rfl
    _ = da := by rw [same]

theorem Settled.heartbeat (now : Int) (region : String) (usage : Int) :
    (da.heartbeat A sorting now region usage).Settled A sorting globalLimit weights := by
  unfold DynamicAllocator.heartbeat
  cases found : da.status region with
  | none => exact settled
  | some s =>
      simp only
      split_ifs with down
      · exact settled_of_rebalanced settled.limit settled.regions settled.known.setStatus
      · refine ⟨settled.limit, settled.regions, settled.known.setStatus, ?_⟩
        have unchanged : da.unhealthy s.region = (s.health == .unhealthy) := by
          rw [unhealthy, region_of_status found, found]
        rw [unhealthy_setStatus, ← unchanged, update_eq_self]
        exact settled.balanced

theorem Settled.checkHealth (now : Int) :
    (da.checkHealth A sorting now).Settled A sorting globalLimit weights := by
  unfold DynamicAllocator.checkHealth
  simp only
  cases changed : da.health.any (expired now da.heartbeatTTL) with
  | true =>
      refine settled_of_rebalanced settled.limit settled.regions ?_
      intro w member
      rw [status, Keyed.find_map _ (fun s => by split_ifs <;> rfl), Option.isSome_map]
      exact settled.known w member
  | false =>
      have same : da.health.map (fun s =>
          if expired now da.heartbeatTTL s then { s with health := .unhealthy } else s) =
            da.health := by
        refine (List.map_congr_left fun s member => ?_).trans (List.map_id _)
        exact if_neg (List.any_eq_false.mp changed s member)
      rw [same]
      exact settled

theorem Settled.drainRegion (region : String) :
    (da.drainRegion A sorting region).Settled A sorting globalLimit weights := by
  unfold DynamicAllocator.drainRegion
  cases da.status region with
  | none => exact settled
  | some s => exact settled_of_rebalanced settled.limit settled.regions settled.known.setStatus

theorem Settled.restoreRegion (now : Int) (region : String) :
    (da.restoreRegion A sorting now region).Settled A sorting globalLimit weights := by
  unfold DynamicAllocator.restoreRegion
  cases da.status region with
  | none => exact settled
  | some s => exact settled_of_rebalanced settled.limit settled.regions settled.known.setStatus

theorem Settled.apply (call : Call) :
    (call.apply A sorting da).Settled A sorting globalLimit weights := by
  cases call with
  | heartbeat now region usage => exact settled.heartbeat now region usage
  | checkHealth now => exact settled.checkHealth now
  | drainRegion region => exact settled.drainRegion region
  | restoreRegion now region => exact settled.restoreRegion now region

end

theorem entered_status (clock : Nat → Int) (entries : List (RegionWeight × Nat))
    (health : List RegionStatus)
    (fresh : ∀ region s, Keyed.find RegionStatus.region region health = some s →
      s.health = .healthy) :
    let entered := entries.foldl (fun health entry => (Keyed.upsert RegionStatus.region
      ⟨entry.1.region, .healthy, clock entry.2, 0⟩ health).2) health
    (∀ region s, Keyed.find RegionStatus.region region entered = some s → s.health = .healthy) ∧
      (∀ region, (Keyed.find RegionStatus.region region health).isSome = true →
        (Keyed.find RegionStatus.region region entered).isSome = true) ∧
      ∀ entry ∈ entries, (Keyed.find RegionStatus.region entry.1.region entered).isSome = true := by
  induction entries generalizing health with
  | nil => exact ⟨fresh, fun _ found => found, fun _ member => by cases member⟩
  | cons entry rest ih =>
      have first := Keyed.find_upsert_self RegionStatus.region
        ⟨entry.1.region, .healthy, clock entry.2, 0⟩ health
      have others : ∀ region, region ≠ entry.1.region → _ := fun region different =>
        Keyed.find_upsert_other RegionStatus.region
          (x := ⟨entry.1.region, .healthy, clock entry.2, 0⟩) (Ne.symm different) health
      obtain ⟨healthy, kept, entered⟩ := ih (Keyed.upsert RegionStatus.region
        ⟨entry.1.region, .healthy, clock entry.2, 0⟩ health).2 (by
          intro region s found
          by_cases same : region = entry.1.region
          · rw [same, first] at found
            cases found
            rfl
          · rw [others region same] at found
            exact fresh region s found)
      refine ⟨healthy, fun region found => kept region ?_, fun other member => ?_⟩
      · by_cases same : region = entry.1.region
        · rw [same, first]
          rfl
        · rw [others region same]
          exact found
      · cases member with
        | head => exact kept _ (by rw [first]; rfl)
        | tail _ later => exact entered other later

section Start

variable (A : Arith) (sorting : Sorting) (globalLimit : Int) (weights : List RegionWeight)
  (heartbeatTTL : Duration) (clock : Nat → Int)

theorem settled_newDynamicAllocator :
    (newDynamicAllocator A sorting globalLimit weights heartbeatTTL clock).Settled A sorting
      globalLimit weights := by
  refine settled_of_rebalanced rfl rfl fun w member => ?_
  obtain ⟨_, _, entered⟩ := entered_status clock weights.zipIdx [] (fun _ _ found => by cases found)
  obtain ⟨index, inside, same⟩ := List.mem_iff_getElem.mp member
  exact same ▸ entered (weights[index], index) (List.mem_zipIdx_iff_getElem?.mpr (by simp))

theorem newDynamicAllocator_unhealthy (region : String) :
    (newDynamicAllocator A sorting globalLimit weights heartbeatTTL clock).unhealthy region =
      false := by
  obtain ⟨healthy, _, _⟩ := entered_status clock weights.zipIdx [] (fun _ _ found => by cases found)
  unfold unhealthy
  split
  · next s found => rw [healthy region s found]; rfl
  · rfl

/-- The allocator after some calls. -/
def after (calls : List Call) : DynamicAllocator :=
  calls.foldl (Call.apply A sorting)
    (newDynamicAllocator A sorting globalLimit weights heartbeatTTL clock)

theorem settled_after (calls : List Call) :
    (after A sorting globalLimit weights heartbeatTTL clock calls).Settled A sorting globalLimit
      weights :=
  foldl_kept _ (fun _ call settled => settled.apply call) calls
    (settled_newDynamicAllocator A sorting globalLimit weights heartbeatTTL clock)

/-- No call forgets to rebalance, and the order of the calls does not show. -/
theorem allocations_determined :
    (∀ calls, let da := after A sorting globalLimit weights heartbeatTTL clock calls
        da.rebalanceLocked A sorting = da ∧
          da.allocations = shares A sorting globalLimit weights da.unhealthy) ∧
      ∀ first second,
        (after A sorting globalLimit weights heartbeatTTL clock first).unhealthy =
          (after A sorting globalLimit weights heartbeatTTL clock second).unhealthy →
        (after A sorting globalLimit weights heartbeatTTL clock first).allocations =
          (after A sorting globalLimit weights heartbeatTTL clock second).allocations := by
  constructor
  · intro calls
    have settled := settled_after A sorting globalLimit weights heartbeatTTL clock calls
    exact ⟨settled.rebalanceLocked, settled.balanced⟩
  · intro first second same
    rw [(settled_after A sorting globalLimit weights heartbeatTTL clock first).balanced,
      (settled_after A sorting globalLimit weights heartbeatTTL clock second).balanced, same]

/-- A region that is drained and reports back leaves the allocations as they were. -/
theorem allocations_determined_of_return :
    (after .machine .stable 100 [⟨"us-east", 3⟩, ⟨"eu-west", 1⟩] 0 (fun _ => 0)
        [.drainRegion "us-east", .heartbeat 5 "us-east" 7]).allocations =
      (after .machine .stable 100 [⟨"us-east", 3⟩, ⟨"eu-west", 1⟩] 0 (fun _ => 0)
        [.heartbeat 5 "us-east" 7]).allocations := by
  refine (allocations_determined .machine .stable 100 _ 0 (fun _ => 0)).2 _ _ ?_
  have same : (after .machine .stable 100 [⟨"us-east", 3⟩, ⟨"eu-west", 1⟩] 0 (fun _ => 0)
        [.drainRegion "us-east", .heartbeat 5 "us-east" 7]).health =
      (after .machine .stable 100 [⟨"us-east", 3⟩, ⟨"eu-west", 1⟩] 0 (fun _ => 0)
        [.heartbeat 5 "us-east" 7]).health := by decide
  funext region
  rw [unhealthy, status, same]
  rfl

end Start

theorem Settled.unhealthy_gets_nothing (settled : da.Settled A sorting globalLimit weights)
    (down : da.unhealthy region = true) :
    (∀ a ∈ da.allocations, a.region ≠ region) ∨ ∀ w ∈ weights, da.unhealthy w.region = true := by
  rw [settled.balanced, shares]
  split_ifs with all
  · right
    intro w member
    simpa using List.filter_eq_nil_iff.mp all w member
  · left
    rintro a member rfl
    obtain ⟨w, healthy, same⟩ := allocate_region member
    have up := (List.mem_filter.mp healthy).2
    rw [same, down] at up
    cases up

/-- The limit is handed out unless the healthy regions have weights, none of them usable. -/
theorem Settled.granted (settled : da.Settled .exact sorting globalLimit weights)
    (limit : 0 < globalLimit) (usable : ∃ w ∈ weights, w.valid = true) :
    granted da.allocations = globalLimit ↔
      (∀ w ∈ weights, da.unhealthy w.region = true) ∨
        ∃ w ∈ weights, da.unhealthy w.region = false ∧ w.valid = true := by
  rw [settled.balanced, shares]
  split_ifs with all
  · have every : ∀ w ∈ weights, da.unhealthy w.region = true := fun w member => by
      simpa using List.filter_eq_nil_iff.mp all w member
    rw [allocate_granted limit, if_pos (List.any_eq_true.mpr usable)]
    exact iff_of_true rfl (.inl every)
  · have some : ¬ ∀ w ∈ weights, da.unhealthy w.region = true := fun every =>
      all (List.filter_eq_nil_iff.mpr fun w member => by simp [every w member])
    have left : (weights.filter fun w => !da.unhealthy w.region).any RegionWeight.valid = true ↔
        ∃ w ∈ weights, da.unhealthy w.region = false ∧ w.valid = true := by
      simp [List.any_eq_true]
    rw [allocate_granted limit, or_iff_right some, ← left]
    split_ifs with present
    · exact iff_of_true rfl present
    · exact iff_of_false limit.ne present

theorem unhealthy_drained (regions : List String) (da : DynamicAllocator) (region : String) :
    ((regions.map Call.drainRegion).foldl (Call.apply A sorting) da).unhealthy region =
      (da.unhealthy region || (decide (region ∈ regions) && (da.status region).isSome)) := by
  induction regions generalizing da with
  | nil => simp
  | cons first rest ih =>
      rw [List.map_cons, List.foldl_cons, ih, Call.apply, drainRegion]
      cases found : da.status first with
      | none =>
          by_cases same : region = first
          · subst same
            simp [found]
          · simp [same]
      | some s =>
          have here : s.region = first := region_of_status found
          change ((da.setStatus _).unhealthy region ||
            (decide (region ∈ rest) && ((da.setStatus _).status region).isSome)) = _
          rw [unhealthy_setStatus, status_setStatus, here]
          by_cases same : region = first
          · subst same
            simp [found]
          · simp [same]

theorem allocations_complete_iff (sorting : Sorting) {globalLimit : Int}
    {weights : List RegionWeight} (heartbeatTTL : Duration) (clock : Nat → Int)
    (limit : 0 < globalLimit) (usable : ∃ w ∈ weights, w.valid = true) :
    (∀ calls,
      let da := after .exact sorting globalLimit weights heartbeatTTL clock calls
      Region.granted da.allocations = globalLimit ∧
        ∀ region, da.unhealthy region = true →
          (∀ a ∈ da.allocations, a.region ≠ region) ∨
            ∀ w ∈ weights, da.unhealthy w.region = true) ↔
      ∀ w ∈ weights, ∃ v ∈ weights, v.region = w.region ∧ v.valid = true := by
  constructor
  · -- Drain every region but one: only the weights of that one are left.
    intro complete w member
    let others := (weights.filter fun v => v.region ≠ w.region).map (·.region)
    let da := after .exact sorting globalLimit weights heartbeatTTL clock
      (others.map Call.drainRegion)
    have settled : da.Settled .exact sorting globalLimit weights :=
      settled_after .exact sorting globalLimit weights heartbeatTTL clock _
    have up : ∀ v ∈ weights, da.unhealthy v.region = false ↔ v.region = w.region := by
      intro v inside
      have known := (settled_newDynamicAllocator .exact sorting globalLimit weights heartbeatTTL
        clock).known v inside
      have drained : v.region ∈ others ↔ v.region ≠ w.region := by
        simp only [others, List.mem_map, List.mem_filter, decide_eq_true_eq]
        constructor
        · rintro ⟨other, ⟨_, different⟩, same⟩
          exact same ▸ different
        · intro different
          exact ⟨v, ⟨inside, different⟩, rfl⟩
      have marked : da.unhealthy v.region = decide (v.region ∈ others) := by
        refine (unhealthy_drained others _ v.region).trans ?_
        rw [newDynamicAllocator_unhealthy, known, Bool.false_or, Bool.and_true]
      rw [marked, decide_eq_false_iff_not, drained, not_ne_iff]
    rcases (settled.granted limit usable).mp (complete _).1 with all | ⟨v, inside, healthy, valid⟩
    · have down := all w member
      rw [(up w member).mpr rfl] at down
      cases down
    · exact ⟨v, inside, (up v inside).mp healthy, valid⟩
  · intro each calls
    have settled := settled_after .exact sorting globalLimit weights heartbeatTTL clock calls
    refine ⟨(settled.granted limit usable).mpr ?_, fun region => settled.unhealthy_gets_nothing⟩
    by_cases all : ∀ w ∈ weights, (after .exact sorting globalLimit weights heartbeatTTL clock
        calls).unhealthy w.region = true
    · exact .inl all
    · right
      push Not at all
      obtain ⟨w, member, healthy⟩ := all
      obtain ⟨v, inside, same, valid⟩ := each w member
      exact ⟨v, inside, same ▸ Bool.eq_false_iff.mpr healthy, valid⟩

theorem allocations_complete_of_usable :
    Region.granted (after .exact .stable 100 [⟨"us-east", 3⟩, ⟨"eu-west", 1⟩] 0 (fun _ => 0)
      [.drainRegion "us-east"]).allocations = 100 :=
  ((allocations_complete_iff .stable 0 (fun _ => 0) (by decide)
    ⟨⟨"us-east", 3⟩, by decide, by decide⟩).mpr (by decide) [.drainRegion "us-east"]).1

theorem allocation_lost_to_zero_weight :
    Region.granted (after .exact .stable 100 [⟨"us-east", 1⟩, ⟨"eu-west", 0⟩] 0 (fun _ => 0)
      [.drainRegion "us-east"]).allocations = 0 := by decide

end DynamicAllocator

end Rlaas.Region
