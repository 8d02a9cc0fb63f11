import Rlaas.Engine.MatcherProperties
import Rlaas.Engine.ResolutionProperties

/-! Which of several matching policies wins: the choice does not depend on the
order of the list, and a strictly narrower scope beats a broader one. -/

set_option autoImplicit false

namespace Rlaas.Engine

open Go Model Store Key Effect

theorem eligible_subset {now : Time} {req : RequestContext} {policies : List Policy} {p : Policy}
    (member : p ∈ eligible now req policies) : p ∈ policies :=
  (List.mem_filter.mp (List.mem_filter.mp member).1).1

theorem eligible_perm {policies reordered : List Policy} (same : policies.Perm reordered)
    (now : Time) (req : RequestContext) :
    (eligible now req policies).Perm (eligible now req reordered) :=
  (same.filter _).filter _

private theorem eligible_distinct (now : Time) (req : RequestContext) {policies : List Policy}
    (distinct : (policies.map (·.policyID)).Nodup) :
    ∀ p ∈ eligible now req policies, ∀ q ∈ eligible now req policies, rank p = rank q → p = q := by
  intro p inP q inQ tied
  have ids : p.policyID = q.policyID := congrArg (fun key => (ofLex (ofLex key).2).2) tied
  exact List.inj_on_of_nodup_map distinct (eligible_subset inP) (eligible_subset inQ) ids

/-- With distinct identifiers every order of the list gives the same choice: no
policy if none is eligible, and else the one above all other eligible ones. -/
theorem pickPolicy_unique_maximum (builder : DefaultBuilder) (now : Time) (req : RequestContext)
    (policies : List Policy) (distinct : (policies.map (·.policyID)).Nodup) :
    (∀ reordered, policies.Perm reordered →
      pickFrom (fun _ => reordered) builder now req = pickFrom (fun _ => policies) builder now req) ∧
    (eligible now req policies = [] → pickFrom (fun _ => policies) builder now req = .ok none) ∧
    (eligible now req policies ≠ [] → ∃ winner ∈ eligible now req policies,
      pickFrom (fun _ => policies) builder now req =
          .ok (some (winner, build builder winner req)) ∧
        ∀ other ∈ eligible now req policies, other ≠ winner → rank other < rank winner) := by
  have unique := eligible_distinct now req distinct
  refine ⟨?_, ?_, ?_⟩
  · intro reordered same
    rw [pickFrom_eq, pickFrom_eq, selectPolicy_eq, selectPolicy_eq,
      Selection.argmax_perm rank unique (eligible_perm same now req)]
  · intro empty
    rw [pickFrom_eq, selectPolicy_eq, empty]
    rfl
  · intro nonempty
    cases chosen : (eligible now req policies).argmax rank with
    | none => exact absurd (List.argmax_eq_none.mp chosen) nonempty
    | some winner =>
        obtain ⟨member, above⟩ := (Selection.argmax_eq_some_iff_above rank unique).mp chosen
        refine ⟨winner, member, ?_, above⟩
        rw [pickFrom_eq, selectPolicy_eq, chosen]
        rfl

private def rankedBuilder : DefaultBuilder := { keyPrefix := "rlaas", sha1 := fun _ => [] }

private def wide : Policy := { policyID := "wide", enabled := true, priority := 9 }

private def close : Policy := { policyID := "close", enabled := true, scope := { orgID := "acme" } }

theorem pickPolicy_of_two_orders :
    pickFrom (fun _ => [close, wide]) rankedBuilder ⟨0, utc⟩ { orgID := "acme" } =
      pickFrom (fun _ => [wide, close]) rankedBuilder ⟨0, utc⟩ { orgID := "acme" } :=
  (pickPolicy_unique_maximum rankedBuilder ⟨0, utc⟩ { orgID := "acme" } [wide, close]
    (by decide)).1 [close, wide] (List.Perm.swap close wide [])

/-- Every request in the second scope is in the first, but not conversely. -/
structure Narrower (broad narrow : PolicyScope) : Prop where
  within : ∀ req, matchesScope req narrow = true → matchesScope req broad = true
  strict : ∃ req, matchesScope req broad = true ∧ matchesScope req narrow = false

/-- The request that has just what a scope asks for. -/
def typical (s : PolicyScope) : RequestContext := .ofFields s.field s.tags

theorem typical_matches (s : PolicyScope) : matchesScope (typical s) s = true := by
  refine (matchesScope_iff _ _).mpr ⟨fun field _ => ?_, fun entry member => ?_⟩
  · simp [typical]
  · exact s.tags.get_of_mem member

namespace Narrower

variable {broad narrow : PolicyScope}

section

variable (narrower : Narrower broad narrow)

include narrower

theorem field_eq {field : ScopeField} (set : broad.field field ≠ "") :
    narrow.field field = broad.field field := by
  have accepted := narrower.within _ (typical_matches narrow)
  simpa [typical] using ((matchesScope_iff _ _).mp accepted).1 field set

theorem entry_mem {entry : String × String} (required : entry ∈ broad.tags.entries) :
    entry ∈ narrow.tags.entries := by
  obtain ⟨key, value⟩ := entry
  by_cases listed : key ∈ narrow.tags.keys
  · obtain ⟨⟨key', value'⟩, member, rfl⟩ := List.mem_map.mp listed
    have accepted := narrower.within _ (typical_matches narrow)
    have equal : narrow.tags.get key' = value :=
      ((matchesScope_iff _ _).mp accepted).2 (key', value) required
    rw [narrow.tags.get_of_mem member] at equal
    exact equal ▸ member
  · -- The narrow scope also accepts another value of a tag it does not ask for.
    have other : matchesScope (.ofFields narrow.field (narrow.tags.insert key (value ++ "x")))
        narrow = true := by
      refine (matchesScope_iff _ _).mpr ⟨fun field _ => by simp, fun entry member => ?_⟩
      have different : entry.1 ≠ key := fun same =>
        listed (same ▸ List.mem_map_of_mem (f := Prod.fst) member)
      rw [RequestContext.tags_ofFields, StringMap.get_insert_other _ _ different]
      exact narrow.tags.get_of_mem member
    have equal := ((matchesScope_iff _ _).mp (narrower.within _ other)).2 (key, value) required
    simp at equal

theorem setFields_subset :
    setFields broad ⊆ setFields narrow := by
  intro field member
  have set := mem_setFields.mp member
  rw [mem_setFields, narrower.field_eq set]
  exact set

/-- A request that only the broad scope accepts violates a requirement of the
narrow one that the broad one does not have. -/
theorem extra_requirement :
    (∃ field ∈ setFields narrow, field ∉ setFields broad) ∨
      ∃ entry ∈ narrow.tags.entries, entry ∉ broad.tags.entries := by
  obtain ⟨req, accepted, refused⟩ := narrower.strict
  obtain ⟨fields, tags⟩ := (matchesScope_iff _ _).mp accepted
  have violated : ¬((∀ field, narrow.field field ≠ "" → req.field field = narrow.field field) ∧
      ∀ entry ∈ narrow.tags.entries, req.tags.get entry.1 = entry.2) := by
    rw [← matchesScope_iff, refused]
    decide
  rw [not_and_or] at violated
  rcases violated with field | tag
  · left
    push Not at field
    obtain ⟨field, set, differs⟩ := field
    refine ⟨field, mem_setFields.mpr set, fun shared => differs ?_⟩
    have set' := mem_setFields.mp shared
    rw [fields field set', narrower.field_eq set']
  · right
    push Not at tag
    obtain ⟨entry, required, differs⟩ := tag
    exact ⟨entry, required, fun shared => differs (tags entry shared)⟩

theorem specificityScore_lt :
    specificityScore broad < specificityScore narrow := by
  have fewer := ((setFields_nodup broad).subperm narrower.setFields_subset).length_le
  have entriesNodup := List.Nodup.of_map _ broad.tags.keys_nodup
  have fewerTags := (entriesNodup.subperm fun _ member => narrower.entry_mem member).length_le
  have score := specificityScore_eq broad
  have score' := specificityScore_eq narrow
  rw [StringMap.size] at score score'
  rcases narrower.extra_requirement with ⟨field, set, unset⟩ | ⟨entry, required, absent⟩
  · have more := ((List.nodup_cons.mpr ⟨unset, setFields_nodup broad⟩).subperm
      (List.cons_subset.mpr ⟨set, narrower.setFields_subset⟩)).length_le
    rw [List.length_cons] at more
    omega
  · have more := ((List.nodup_cons.mpr ⟨absent, entriesNodup⟩).subperm
      (List.cons_subset.mpr ⟨required, fun _ member => narrower.entry_mem member⟩)).length_le
    rw [List.length_cons] at more
    omega

end

end Narrower

/-- Of two policies that match a request, one with a strictly broader scope than
the other is not the winner, whatever their priorities and identifiers. -/
theorem selectWinner_ne_broader (req : RequestContext) (candidates : List Policy)
    (broad narrow : Policy) (listed : broad ∈ candidates) (listed' : narrow ∈ candidates)
    (matched : matchesPolicy req broad = true) (matched' : matchesPolicy req narrow = true)
    (narrower : Narrower broad.scope narrow.scope) :
    selectWinner (matchPolicies req candidates) ≠ .ok broad := by
  have member : broad ∈ matchPolicies req candidates := List.mem_filter.mpr ⟨listed, matched⟩
  have member' : narrow ∈ matchPolicies req candidates := List.mem_filter.mpr ⟨listed', matched'⟩
  intro won
  cases chosen : (matchPolicies req candidates).argmax rank with
  | none =>
      rw [List.argmax_eq_none.mp chosen] at member
      cases member
  | some winner =>
      rw [selectWinner_of_argmax chosen, Except.ok.injEq] at won
      have above : rank broad < rank narrow :=
        Prod.Lex.toLex_lt_toLex.mpr (.inl narrower.specificityScore_lt)
      exact absurd (List.le_of_mem_argmax member' chosen) (not_le.mpr (won ▸ above))

private theorem close_narrower : Narrower wide.scope close.scope where
  within req _ := (matchesScope_iff req wide.scope).mpr
    ⟨fun field set => absurd (by cases field <;> rfl) set, fun entry member => by cases member⟩
  strict := ⟨{}, by decide⟩

theorem selectWinner_ne_wide :
    selectWinner (matchPolicies { orgID := "acme" } [wide, close]) ≠ .ok wide :=
  selectWinner_ne_broader { orgID := "acme" } [wide, close] wide close (by simp) (by simp)
    (by decide) (by decide) close_narrower

end Rlaas.Engine
