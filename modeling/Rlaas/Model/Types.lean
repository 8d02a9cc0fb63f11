import Rlaas.Go.Time
import Mathlib.Data.String.Basic

/-! The data model of package `model`: request contexts, policies and decisions. -/

set_option autoImplicit false

namespace Rlaas.Model

open Go

/-- A `map[string]string`. Keys are kept in increasing order, so that two maps
with the same entries are equal; Go gives no order to rely on. -/
structure StringMap where
  entries : List (String × String)
  sorted : (entries.map (·.1)).Pairwise (· < ·)
  deriving DecidableEq

namespace StringMap

def empty : StringMap := ⟨[], .nil⟩

def get (m : StringMap) (key : String) : String :=
  (m.entries.lookup key).getD ""

def keys (m : StringMap) : List String := m.entries.map (·.1)

def size (m : StringMap) : Nat := m.entries.length

def insertEntry (key value : String) : List (String × String) → List (String × String)
  | [] => [(key, value)]
  | head :: rest =>
      if key < head.1 then (key, value) :: head :: rest
      else if key = head.1 then (key, value) :: rest
      else head :: insertEntry key value rest

theorem mem_insertEntry_keys {key value other : String} {entries : List (String × String)}
    (member : other ∈ (insertEntry key value entries).map (·.1)) :
    other = key ∨ other ∈ entries.map (·.1) := by
  induction entries with
  | nil => simpa [insertEntry] using member
  | cons head rest ih =>
      unfold insertEntry at member
      split at member
      · simpa using member
      · split at member
        · simp only [List.map_cons, List.mem_cons] at member ⊢
          tauto
        · simp only [List.map_cons, List.mem_cons] at member ⊢
          rcases member with first | later
          · exact .inr (.inl first)
          · rcases ih later with same | found
            · exact .inl same
            · exact .inr (.inr found)

theorem insertEntry_sorted (key value : String) (entries : List (String × String))
    (sorted : (entries.map (·.1)).Pairwise (· < ·)) :
    ((insertEntry key value entries).map (·.1)).Pairwise (· < ·) := by
  induction entries with
  | nil => simp [insertEntry]
  | cons head rest ih =>
      obtain ⟨below, tail⟩ := List.pairwise_cons.mp sorted
      unfold insertEntry
      split
      · next before =>
          refine List.pairwise_cons.mpr ⟨?_, sorted⟩
          intro other member
          rcases List.mem_cons.mp member with rfl | later
          · exact before
          · exact lt_trans before (below other later)
      · split
        · next same =>
            subst same
            exact List.pairwise_cons.mpr ⟨below, tail⟩
        · next notBefore different =>
            refine List.pairwise_cons.mpr ⟨?_, ih tail⟩
            intro other member
            rcases mem_insertEntry_keys member with rfl | later
            · exact lt_of_le_of_ne (not_lt.mp notBefore) (Ne.symm different)
            · exact below other later

def insert (m : StringMap) (key value : String) : StringMap :=
  ⟨insertEntry key value m.entries, insertEntry_sorted key value m.entries m.sorted⟩

private theorem lookup_cons_eq (other : String) (head : String × String)
    (rest : List (String × String)) :
    (head :: rest).lookup other = if other = head.1 then some head.2 else rest.lookup other := by
  obtain ⟨key, value⟩ := head
  by_cases same : other = key
  · simp [same]
  · simp [List.lookup_cons, same, beq_false_of_ne same]

private theorem lookup_of_mem {entries : List (String × String)}
    (sorted : (entries.map (·.1)).Pairwise (· < ·)) {key value : String}
    (member : (key, value) ∈ entries) : entries.lookup key = some value := by
  induction entries with
  | nil => cases member
  | cons head rest ih =>
      obtain ⟨below, tail⟩ := List.pairwise_cons.mp sorted
      rcases List.mem_cons.mp member with first | later
      · subst first
        simp
      · have different : key ≠ head.1 :=
          ne_of_gt (below key (List.mem_map_of_mem (f := Prod.fst) later))
        rw [lookup_cons_eq, if_neg different]
        exact ih tail later

theorem get_of_mem (m : StringMap) {key value : String} (member : (key, value) ∈ m.entries) :
    m.get key = value := by
  rw [get, lookup_of_mem m.sorted member]
  rfl

theorem keys_nodup (m : StringMap) : m.keys.Nodup := m.sorted.imp ne_of_lt

private theorem lookup_insertEntry (key value other : String) (entries : List (String × String)) :
    (insertEntry key value entries).lookup other =
      if other = key then some value else entries.lookup other := by
  induction entries with
  | nil => exact lookup_cons_eq other (key, value) []
  | cons head rest ih =>
      unfold insertEntry
      split
      · exact lookup_cons_eq other (key, value) (head :: rest)
      · split
        · next equal =>
            rw [lookup_cons_eq, lookup_cons_eq other head, ← equal]
            split
            · rfl
            · rfl
        · next different =>
            rw [lookup_cons_eq, lookup_cons_eq other head, ih]
            by_cases first : other = head.1
            · have apart : other ≠ key := fun same => different (same.symm.trans first)
              rw [if_pos first, if_pos first, if_neg apart]
            · rw [if_neg first, if_neg first]

@[simp] theorem get_insert_self (m : StringMap) (key value : String) :
    (m.insert key value).get key = value := by
  simp [get, insert, lookup_insertEntry]

theorem get_insert_other (m : StringMap) {key other : String} (value : String)
    (different : other ≠ key) : (m.insert key value).get other = m.get other := by
  simp [get, insert, lookup_insertEntry, different]

end StringMap

structure RequestContext where
  requestID : String := ""
  orgID : String := ""
  tenantID : String := ""
  application : String := ""
  service : String := ""
  environment : String := ""
  signalType : String := ""
  operation : String := ""
  endpoint : String := ""
  method : String := ""
  userID : String := ""
  apiKey : String := ""
  clientID : String := ""
  sourceIP : String := ""
  region : String := ""
  resource : String := ""
  severity : String := ""
  spanName : String := ""
  topic : String := ""
  consumerGroup : String := ""
  jobType : String := ""
  quantity : Int := 0
  tags : StringMap := .empty
  deriving DecidableEq

/-- `ActionType`; a stored policy may carry any other string. -/
inductive ActionType where
  | allow
  | deny
  | delay
  | sample
  | drop
  | downgrade
  | dropLowPriority
  | shadowOnly
  | other (name : String)
  deriving DecidableEq

def ActionType.name : ActionType → String
  | .allow => "allow"
  | .deny => "deny"
  | .delay => "delay"
  | .sample => "sample"
  | .drop => "drop"
  | .downgrade => "downgrade"
  | .dropLowPriority => "drop_low_priority"
  | .shadowOnly => "shadow_only"
  | .other name => name

/-- `Decision`. A field that is not set has its zero value. -/
structure Decision where
  allowed : Bool := false
  action : ActionType := .other ""
  reason : String := ""
  matchedPolicyID : String := ""
  limitKey : String := ""
  remaining : Int := 0
  retryAfter : Duration := 0
  resetAt : Int := zeroNanos
  delayFor : Duration := 0
  sampleRate : GoFloat := .fin 0
  shadowMode : Bool := false
  metadata : StringMap := .empty
  deriving DecidableEq

structure PolicyScope where
  orgID : String := ""
  tenantID : String := ""
  application : String := ""
  service : String := ""
  environment : String := ""
  signalType : String := ""
  operation : String := ""
  endpoint : String := ""
  method : String := ""
  userID : String := ""
  apiKey : String := ""
  clientID : String := ""
  sourceIP : String := ""
  region : String := ""
  resource : String := ""
  severity : String := ""
  spanName : String := ""
  topic : String := ""
  consumerGroup : String := ""
  jobType : String := ""
  tags : StringMap := .empty
  deriving DecidableEq

inductive AlgorithmType where
  | fixedWindow
  | slidingWindowLog
  | slidingWindowCnt
  | tokenBucket
  | leakyBucket
  | concurrency
  | quota
  | other (name : String)
  deriving DecidableEq

structure AlgorithmConfig where
  type : AlgorithmType := .other ""
  limit : Int := 0
  window : String := ""
  burst : Int := 0
  refillRate : GoFloat := .fin 0
  leakRate : GoFloat := .fin 0
  maxConcurrency : Int := 0
  leaseTTL : Int := 0
  quotaPeriod : String := ""
  costPerRequest : Int := 0
  maxRetries : Int := 0
  sampleRate : GoFloat := .fin 0
  deriving DecidableEq

inductive FailureMode where
  | failOpen
  | failClosed
  | other (name : String)
  deriving DecidableEq

inductive EnforcementMode where
  | enforce
  | shadow
  | other (name : String)
  deriving DecidableEq

structure Policy where
  policyID : String := ""
  name : String := ""
  description : String := ""
  enabled : Bool := false
  priority : Int := 0
  scope : PolicyScope := {}
  algorithm : AlgorithmConfig := {}
  action : ActionType := .other ""
  failureMode : FailureMode := .other ""
  enforcementMode : EnforcementMode := .other ""
  rolloutPercent : Int := 0
  validFromUnix : Int := 0
  validToUnix : Int := 0
  metadata : StringMap := .empty
  deriving DecidableEq

end Rlaas.Model
