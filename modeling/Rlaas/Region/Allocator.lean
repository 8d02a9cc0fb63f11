import Rlaas.Lib.Keyed
import Rlaas.Go.Time

/-! Package `region`: a global limit split over weighted regions, and the
allocator that moves the share of unhealthy regions to the others. Instants are
nanoseconds since the Unix epoch. -/

set_option autoImplicit false

namespace Rlaas.Region

open Go

structure RegionWeight where
  region : String
  weight : Int
  deriving DecidableEq, Repr

structure Allocation where
  region : String
  limit : Int
  deriving DecidableEq, Repr

/-- What `sort.Slice` by region promises: the same weights in order. Which of two
weights of one region comes first is left open. -/
structure Sorting where
  slice : List RegionWeight → List RegionWeight
  perm : ∀ weights, (slice weights).Perm weights
  ordered : ∀ weights, (slice weights).Pairwise fun left right => ¬ right.region < left.region

def RegionWeight.valid (w : RegionWeight) : Bool := !(w.region == "" || decide (w.weight ≤ 0))

def totalWeight (A : Arith) (valid : List RegionWeight) : Int :=
  valid.foldl (fun total w => A.wrap (total + w.weight)) 0

/-- The loop over the sorted weights, with what was assigned before. -/
def assign (A : Arith) (globalLimit total : Int) : Int → List RegionWeight → List Allocation
  | _, [] => []
  | assigned, w :: rest =>
      let share :=
        match rest with
        | [] => A.wrap (globalLimit - assigned)
        | _ :: _ => A.wrap ((A.wrap (globalLimit * w.weight)).tdiv total)
      let limit := if share < 0 then 0 else share
      ⟨w.region, limit⟩ :: assign A globalLimit total (A.wrap (assigned + limit)) rest

def allocateGlobalLimit (A : Arith) (sorting : Sorting) (globalLimit : Int)
    (weights : List RegionWeight) : List Allocation :=
  if globalLimit ≤ 0 ∨ weights = [] then []
  else
    let valid := weights.filter RegionWeight.valid
    let total := totalWeight A valid
    if total = 0 then [] else assign A globalLimit total 0 (sorting.slice valid)

/-- A `map[string]int64`: regions with a value each. -/
structure RegionMap where
  entries : List (String × Int)
  distinct : (entries.map (·.1)).Nodup

def RegionMap.empty : RegionMap := ⟨[], List.nodup_nil⟩

/-- The map of limits; a later allocation of a region replaces an earlier one, and a region
without one reads as zero. -/
def limits (allocation : List Allocation) : String → Int :=
  allocation.foldl (fun limits a => Function.update limits a.region a.limit) fun _ => 0

def regionalOverflow (A : Arith) (usage : RegionMap) (allocation : List Allocation) : RegionMap :=
  if usage.entries = [] ∨ allocation = [] then .empty
  else
    { entries := (usage.entries.map fun entry =>
        (entry.1, A.wrap (entry.2 - limits allocation entry.1))).filter fun entry => 0 < entry.2
      distinct := by
        refine List.Nodup.sublist (List.filter_sublist.map _) ?_
        rw [List.map_map]
        exact usage.distinct }

/-- `degraded` is declared by the source and set by no operation. -/
inductive RegionHealth where
  | healthy
  | degraded
  | unhealthy
  deriving DecidableEq, Repr

structure RegionStatus where
  region : String
  health : RegionHealth
  lastHeartbeat : Int
  currentUsage : Int
  deriving DecidableEq, Repr

/-- The map `health` is a list of statuses with distinct regions. -/
structure DynamicAllocator where
  globalLimit : Int
  weights : List RegionWeight
  allocations : List Allocation
  health : List RegionStatus
  heartbeatTTL : Duration
  deriving DecidableEq, Repr

namespace DynamicAllocator

def status (da : DynamicAllocator) (region : String) : Option RegionStatus :=
  Keyed.find RegionStatus.region region da.health

def setStatus (da : DynamicAllocator) (s : RegionStatus) : DynamicAllocator :=
  { da with health := (Keyed.upsert RegionStatus.region s da.health).2 }

/-- The weights of the regions that have a status and are not unhealthy. -/
def healthy (da : DynamicAllocator) : List RegionWeight :=
  da.weights.filter fun w =>
    match da.status w.region with
    | some s => s.health != .unhealthy
    | none => false

def rebalanceLocked (A : Arith) (sorting : Sorting) (da : DynamicAllocator) : DynamicAllocator :=
  { da with
    allocations :=
      if da.healthy = [] then allocateGlobalLimit A sorting da.globalLimit da.weights
      else allocateGlobalLimit A sorting da.globalLimit da.healthy }

/-- Every region is entered as healthy, at a reading of its own. -/
def newDynamicAllocator (A : Arith) (sorting : Sorting) (globalLimit : Int)
    (weights : List RegionWeight) (heartbeatTTL : Duration) (clock : Nat → Int) :
    DynamicAllocator :=
  rebalanceLocked A sorting
    { globalLimit
      weights
      allocations := []
      health := weights.zipIdx.foldl
        (fun health entry => (Keyed.upsert RegionStatus.region
          ⟨entry.1.region, .healthy, clock entry.2, 0⟩ health).2) []
      heartbeatTTL := if heartbeatTTL ≤ 0 then 30 * second else heartbeatTTL }

def heartbeat (A : Arith) (sorting : Sorting) (now : Int) (region : String) (usage : Int)
    (da : DynamicAllocator) : DynamicAllocator :=
  match da.status region with
  | none => da
  | some s =>
      let s := { s with lastHeartbeat := now, currentUsage := usage }
      if s.health = .unhealthy then
        rebalanceLocked A sorting (da.setStatus { s with health := .healthy })
      else da.setStatus s

/-- The statuses that `CheckHealth` changes. -/
def expired (now : Int) (heartbeatTTL : Duration) (s : RegionStatus) : Bool :=
  decide (subNanos now s.lastHeartbeat > heartbeatTTL) && s.health != .unhealthy

def checkHealth (A : Arith) (sorting : Sorting) (now : Int) (da : DynamicAllocator) :
    DynamicAllocator :=
  let marked := { da with
    health := da.health.map fun s =>
      if expired now da.heartbeatTTL s then { s with health := .unhealthy } else s }
  if da.health.any (expired now da.heartbeatTTL) then rebalanceLocked A sorting marked else marked

def drainRegion (A : Arith) (sorting : Sorting) (region : String) (da : DynamicAllocator) :
    DynamicAllocator :=
  match da.status region with
  | none => da
  | some s => rebalanceLocked A sorting (da.setStatus { s with health := .unhealthy })

def restoreRegion (A : Arith) (sorting : Sorting) (now : Int) (region : String)
    (da : DynamicAllocator) : DynamicAllocator :=
  match da.status region with
  | none => da
  | some s =>
      rebalanceLocked A sorting (da.setStatus { s with health := .healthy, lastHeartbeat := now })

end DynamicAllocator

/-- A call on the allocator with the reading of the clock it makes. -/
inductive Call where
  | heartbeat (now : Int) (region : String) (usage : Int)
  | checkHealth (now : Int)
  | drainRegion (region : String)
  | restoreRegion (now : Int) (region : String)
  deriving DecidableEq, Repr

def Call.apply (A : Arith) (sorting : Sorting) (da : DynamicAllocator) : Call → DynamicAllocator
  | .heartbeat now region usage => da.heartbeat A sorting now region usage
  | .checkHealth now => da.checkHealth A sorting now
  | .drainRegion region => da.drainRegion A sorting region
  | .restoreRegion now region => da.restoreRegion A sorting now region

end Rlaas.Region
