import Mathlib.Data.Int.ConditionallyCompleteOrder
import Mathlib.Data.Prod.Lex
import Mathlib.Data.String.Basic
import Rlaas.Engine.Evaluator
import Rlaas.Engine.MatcherProperties
import Rlaas.Lib.Selection

/-! Policy resolution against the file store: which policy wins, and when the
namespace filter of `LoadPolicies` changes the winner. -/

set_option autoImplicit false

namespace Rlaas.Engine

open Go Model Store Key Effect

/-- What `SelectWinner` maximises. -/
def rank (p : Policy) : Int ×ₗ Int ×ₗ String :=
  toLex (specificityScore p.scope, toLex (p.priority, p.policyID))

/-- One criterion of the order, and what decides if it does not. -/
private theorem tie_break {α : Type} [LinearOrder α] {x y : α} {rest : Bool} {otherwise : Prop}
    (tied : rest = false ↔ otherwise) :
    (if x ≠ y then decide (x > y) else rest) = false ↔ x < y ∨ x = y ∧ otherwise := by
  split
  · next differ =>
      rw [decide_eq_false_iff_not, gt_iff_lt, not_lt]
      exact ⟨fun below => .inl (lt_of_le_of_ne below differ),
        fun better => better.elim le_of_lt fun equal => absurd equal.1 differ⟩
  · next same =>
      have equal : x = y := not_not.mp same
      rw [tied, or_iff_right (equal ▸ lt_irrefl x), and_iff_right equal]

theorem before_eq_false_iff (p q : Policy) : before q p = false ↔ rank q ≤ rank p := by
  unfold before rank
  rw [Prod.Lex.toLex_le_toLex, Prod.Lex.toLex_le_toLex]
  refine tie_break (tie_break ((tie_break (iff_of_true rfl trivial)).trans ?_))
  rw [and_true, le_iff_lt_or_eq]

theorem ranked_head (policies : List Policy) :
    (ranked policies).head? = policies.argmax rank :=
  Selection.head_insertionSort_eq_argmax rank (fun p q => before_eq_false_iff p q) policies

theorem selectWinner_of_argmax {policies : List Policy} {winner : Policy}
    (chosen : policies.argmax rank = some winner) : selectWinner policies = .ok winner := by
  rw [← ranked_head] at chosen
  unfold selectWinner
  cases sorted : ranked policies with
  | nil => simp [sorted] at chosen
  | cons first others =>
      rw [sorted, List.head?_cons, Option.some.injEq] at chosen
      rw [chosen]

def eligible (now : Time) (req : RequestContext) (policies : List Policy) : List Policy :=
  matchPolicies req (policies.filter (isCandidate now req))

theorem selectPolicy_eq (builder : DefaultBuilder) (now : Time) (req : RequestContext)
    (policies : List Policy) :
    selectPolicy builder now req policies =
      .ok (((eligible now req policies).argmax rank).map fun winner =>
        (winner, build builder winner req)) := by
  have matched : matchPolicies req (policies.filter (isCandidate now req)) =
      eligible now req policies := rfl
  unfold selectPolicy
  rw [matched]
  cases chosen : (eligible now req policies).argmax rank with
  | none => simp [List.argmax_eq_none.mp chosen]
  | some winner =>
      have member : winner ∈ eligible now req policies := List.argmax_mem chosen
      simp [selectWinner_of_argmax chosen, List.ne_nil_of_mem member]

/-- Resolution with an empty cache and a store that answers `load`. -/
def loadingFrom (load : String → List Policy) (now : Time) :
    (op : PolicyOp) → Unit → PolicyRes op × Unit
  | .now, state => (now, state)
  | .cacheGet _, state => (none, state)
  | .loadPolicies ns, state => (.ok (load ns), state)
  | .cacheSet .., state => ((), state)

def pickFrom (load : String → List Policy) (builder : DefaultBuilder) (now : Time)
    (req : RequestContext) : Except String (Option (Policy × String)) :=
  ((pickPolicy builder req).exec (loadingFrom load) (fun _ => now) ()).1

theorem pickFrom_eq (load : String → List Policy) (builder : DefaultBuilder) (now : Time)
    (req : RequestContext) :
    pickFrom load builder now req = selectPolicy builder now req (load (namespaceOf req)) := rfl

/-- A policy of an organisation as a whole, seen by a request that names a tenant. -/
def HiddenFrom (req : RequestContext) (p : Policy) : Prop :=
  req.tenantID ≠ "" ∧ p.scope.tenantID = "" ∧ p.scope.orgID ≠ "" ∧ p.scope.orgID ≠ req.tenantID

instance (req : RequestContext) (p : Policy) : Decidable (HiddenFrom req p) :=
  inferInstanceAs (Decidable (_ ∧ _))

theorem matchString_cases {scope val : String} (matched : matchString scope val = true) :
    scope = "" ∨ scope = val := by
  simpa [matchString] using matched

/-- Among the policies that match, the namespace filter drops the hidden ones
and no others. -/
theorem inNamespace_eq_false_iff_hidden {req : RequestContext} {p : Policy}
    (org : matchString p.scope.orgID req.orgID = true)
    (tenant : matchString p.scope.tenantID req.tenantID = true) :
    inNamespace (namespaceOf req) p = false ↔ HiddenFrom req p := by
  unfold namespaceOf
  simp only [inNamespace, HiddenFrom, Bool.or_eq_false_iff, Bool.and_eq_false_iff, beq_eq_false_iff_ne]
  rcases matchString_cases tenant with unset | set
  · rcases matchString_cases org with orgUnset | orgSet
    · simp [unset, orgUnset]
    · by_cases anonymous : req.tenantID = ""
      · simp [anonymous, unset, orgSet]
      · simp [anonymous, unset, Ne.symm anonymous, and_comm]
  · by_cases anonymous : req.tenantID = ""
    · rcases matchString_cases org with orgUnset | orgSet
      · simp [anonymous, set, orgUnset]
      · simp [anonymous, set, orgSet]
    · simp [anonymous, set]

private theorem matchesPolicy_org_tenant {req : RequestContext} {p : Policy}
    (matched : matchesPolicy req p = true) :
    matchString p.scope.orgID req.orgID = true ∧
      matchString p.scope.tenantID req.tenantID = true := by
  have inScope := matchesScope_of_matchesPolicy matched
  simp only [matchesScope, Bool.and_eq_true] at inScope
  tauto

theorem eligible_loadPolicies (now : Time) (req : RequestContext) (payload : Payload) :
    eligible now req (payload.loadPolicies (namespaceOf req)) =
      (eligible now req payload.policies).filter fun p => !decide (HiddenFrom req p) := by
  have kept : ∀ p ∈ eligible now req payload.policies,
      (!decide (HiddenFrom req p)) = inNamespace (namespaceOf req) p := by
    intro p member
    obtain ⟨org, tenant⟩ := matchesPolicy_org_tenant (List.mem_filter.mp member).2
    have dropped := inNamespace_eq_false_iff_hidden org tenant
    cases present : inNamespace (namespaceOf req) p with
    | false => simpa using dropped.mp present
    | true => simpa [present] using dropped
  rw [List.filter_congr kept]
  unfold Payload.loadPolicies
  split
  · next unnamed =>
      refine (List.filter_eq_self.mpr fun p member => ?_).symm
      rw [← kept p member]
      have anonymous : req.tenantID = "" := by
        unfold namespaceOf at unnamed
        split at unnamed <;> assumption
      simp [HiddenFrom, anonymous]
  · simp only [eligible, matchPolicies, List.filter_filter]
    refine List.filter_congr fun p _ => ?_
    cases inNamespace (namespaceOf req) p with
    | false => simp
    | true => simp

/-- The namespace filter of the file store leaves the selection as it would be
over the complete list exactly when every hidden policy loses to one that is not. -/
theorem pickPolicy_loaded_eq_complete_iff (builder : DefaultBuilder) (now : Time)
    (req : RequestContext) (payload : Payload) :
    pickFrom payload.loadPolicies builder now req =
        pickFrom (fun _ => payload.policies) builder now req ↔
      ∀ dropped ∈ eligible now req payload.policies, HiddenFrom req dropped →
        ∃ kept ∈ eligible now req payload.policies, ¬HiddenFrom req kept ∧
          (rank dropped < rank kept ∨ rank dropped = rank kept ∧
            (eligible now req payload.policies).idxOf kept <
              (eligible now req payload.policies).idxOf dropped) := by
  have rule := Selection.argmax_kept_iff rank (fun p => !decide (HiddenFrom req p))
    (eligible now req payload.policies)
  rw [← Selection.argmax_filter_eq_iff, ← eligible_loadPolicies] at rule
  simp only [Bool.not_eq_eq_eq_not, Bool.not_false, Bool.not_true, decide_eq_true_eq,
    decide_eq_false_iff_not] at rule
  rw [pickFrom_eq, pickFrom_eq, selectPolicy_eq, selectPolicy_eq, ← rule, Except.ok.injEq]
  constructor
  · intro same
    have winners := congrArg (Option.map Prod.fst) same
    simpa [Option.map_map, Function.comp_def] using winners
  · intro same
    rw [same]

private def orgBuilder : DefaultBuilder := { keyPrefix := "rlaas", sha1 := fun _ => [] }

private def orgPolicy : Policy :=
  { policyID := "org-default", enabled := true, scope := { orgID := "acme" } }

private def orgPayload : Payload := { policies := [orgPolicy] }

private def tenantRequest : RequestContext := { orgID := "acme", tenantID := "retail" }

/-- An organisation's only policy and a request of one of its tenants: the file
store answers with nothing, so no limit applies. -/
theorem pickPolicy_loses_org_policy :
    pickFrom orgPayload.loadPolicies orgBuilder ⟨0, utc⟩ tenantRequest = .ok none ∧
      pickFrom (fun _ => orgPayload.policies) orgBuilder ⟨0, utc⟩ tenantRequest =
        .ok (some (orgPolicy, "rlaas:org=acme")) := by
  decide

end Rlaas.Engine
